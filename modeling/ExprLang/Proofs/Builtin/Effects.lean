import ExprLang.Builtin.Table
import ExprLang.Proofs.Heap.Grounded

/-! What the builtin methods give and what they write. Their values are computed, were given to them, or
stand in cells, and few of them write at all. -/

namespace ExprLang

/-- The value is an atom, was given, or stands in a cell. -/
inductive Heap.Source (h : Heap) (self : Value) (args : List Value) : Value → Prop
  | atom {v : Value} : v.isAtom = true → Source h self args v
  | receiver : Source h self args self
  | argument {v : Value} : v ∈ args → Source h self args v
  | item {v : Value} (a : Address) : v ∈ h.items a → Source h self args v
  | entry {e : Value × Value} (a : Address) : e ∈ h.entries a → Source h self args e.2

/-- A value with the heap that goes with it: unchanged, or after the one write of a method of
collections. -/
inductive Heap.Effect (h : Heap) (self : Value) (args : List Value) : Value × Heap → Prop
  | nothing {v : Value} : v.isAtom = true → Effect h self args (v, h)
  | item {a : Address} {v : Value} : self = .list a → v ∈ args →
    Effect h self args (.bool true, h.put a (.items (h.items a ++ [v])))
  | member {a : Address} {v : Value} : self = .set a → v ∈ args →
    h.holds (h.items a) v = false →
    Effect h self args (.bool true, h.put a (.items (h.items a ++ [v])))
  | entry {a : Address} {key v : Value} : self = .map a → key ∈ args → v ∈ args →
    Effect h self args ((h.lookup? (h.entries a) key).getD .null,
      h.put a (.entries (h.putEntry (h.entries a) key v)))
  | keys (a : Address) : Effect h self args (h.newSet ((h.entries a).map (·.1)))
  | values (a : Address) : Effect h self args (h.newList ((h.entries a).map (·.2)))

/-- The code looks at the heap and gives a value from a known source, or has a known effect; or it calls
the receiver. -/
inductive Declaration.Sourced (d : Declaration) : Prop
  | look (f : Value → List Value → Heap → Except Failure Value) :
    d.body = some (fun self args => .look (f self args)) →
    (∀ (self : Value) (args : List Value) (h : Heap),
      ResultIn (h.Source self args) (f self args h)) → d.Sourced
  | change (f : Value → List Value → Heap → Except Failure (Value × Heap)) :
    d.body = some (fun self args => .change (f self args)) →
    (∀ (self : Value) (args : List Value) (h : Heap),
      ResultIn (h.Effect self args) (f self args h)) → d.Sourced
  | invoke : d.body = some Builtin.invokeLambda → d.Sourced

/-- The value of a key, or null. -/
theorem Heap.source_lookup {h : Heap} {self : Value} {args : List Value} (a : Address)
    (key : Value) : h.Source self args ((h.lookup? (h.entries a) key).getD .null) := by
  cases hv : h.lookup? (h.entries a) key with
  | none => exact .atom rfl
  | some v =>
    obtain ⟨e, he, rfl⟩ := h.mem_of_lookup? hv
    exact .entry a he

namespace Builtin

open Value (AtomIn)

/-! ## Declaring methods -/

section Declaring
variable {name : String} {params : List TypeRef} {returns : TypeRef}

theorem query_sourced {f : Heap → Value → List Value → Except Failure Value}
    (h : ∀ (k : Heap) self vs, ResultIn (k.Source self vs) (f k self vs)) :
    (query name params returns f).Sourced :=
  .look _ rfl fun self vs k => h k self vs

theorem function_sourced {f : Heap → List Value → Except Failure Value}
    (h : ∀ (k : Heap) self vs, ResultIn (k.Source self vs) (f k vs)) :
    (function name params returns f).Sourced :=
  .look _ rfl fun self vs k => h k self vs

theorem constructor_sourced {f : Heap → List Value → Except Failure Value}
    (h : ∀ (k : Heap) self vs, ResultIn (k.Source self vs) (f k vs)) :
    (constructor params f).Sourced :=
  .look _ rfl fun self vs k => h k self vs

theorem command_sourced {f : Heap → Value → List Value → Except Failure (Value × Heap)}
    (h : ∀ (k : Heap) self vs, ResultIn (k.Effect self vs) (f k self vs)) :
    (command name params returns f).Sourced :=
  .change _ rfl fun self vs k => h k self vs

theorem query_sourced_of_atom {f : Heap → Value → List Value → Except Failure Value}
    (h : ∀ k v vs, AtomIn (f k v vs)) : (query name params returns f).Sourced :=
  query_sourced fun k self vs => (h k self vs).imp fun _ => .atom

theorem function_sourced_of_atom {f : Heap → List Value → Except Failure Value}
    (h : ∀ k vs, AtomIn (f k vs)) : (function name params returns f).Sourced :=
  function_sourced fun k _ vs => (h k vs).imp fun _ => .atom

theorem constructor_sourced_of_atom {f : Heap → List Value → Except Failure Value}
    (h : ∀ k vs, AtomIn (f k vs)) : (constructor params f).Sourced :=
  constructor_sourced fun k _ vs => (h k vs).imp fun _ => .atom

end Declaring

/-! ## Arguments -/

theorem mem_of_argument {vs : List Value} {i : Nat} {v : Value} (h : argument vs i = .ok v) :
    v ∈ vs := by
  unfold argument at h
  split at h
  · next w hw =>
    cases h
    exact List.mem_of_getElem? hw
  · cases h

theorem first_source (h : Heap) (self : Value) (vs : List Value) :
    ResultIn (h.Source self vs) (first h vs) :=
  fun _ hv => .argument (mem_of_argument hv)

theorem mismatch_in {α : Type} {p : α → Prop} (h : Heap) (wanted : String) (v : Value) :
    ResultIn p (mismatch h wanted v) := .error

@[simp] theorem fail_in {α : Type} {p : α → Prop} (text : String) : ResultIn p (fail text) := .error

theorem items_of_asItems {h : Heap} {v : Value} {vs : List Value} (hvs : asItems h v = .ok vs) :
    ∃ a, vs = h.items a := by
  cases v <;> cases hvs <;> exact ⟨_, rfl⟩

theorem entries_of_asEntries {h : Heap} {v : Value} {es : List (Value × Value)}
    (hes : asEntries h v = .ok es) : ∃ a, es = h.entries a := by
  cases v <;> cases hes
  exact ⟨_, rfl⟩

/-! ## Objects, texts, truth values, characters and classes -/

theorem objectMethods_sourced : ∀ d ∈ objectMethods, d.Sourced := by
  simp only [objectMethods, List.forall_mem_cons]
  refine ⟨query_sourced_of_atom fun k v vs => ?_, query_sourced_of_atom fun k v vs => ?_,
    query_sourced_of_atom fun k v vs => ?_, nofun⟩
  · cases k.classOf? v <;> exact ResultIn.ok_iff.mpr rfl
  · exact ResultIn.ok_iff.mpr rfl
  · simp [Value.isAtom]

theorem ofText_sourced (name : String) (returns : TypeRef) {f : String → Value}
    (hf : ∀ s, (f s).isAtom = true) : (ofText name returns f).Sourced :=
  query_sourced_of_atom fun k v vs => by simp [hf]

theorem ofTexts_sourced (name : String) (returns : TypeRef) {f : String → String → Value}
    (hf : ∀ s t, (f s t).isAtom = true) : (ofTexts name returns f).Sourced :=
  query_sourced_of_atom fun k v vs => by simp [hf]

theorem substring_atom (cs : List Char) (start stop : Nat) : AtomIn (substring cs start stop) :=
  .ite (fail_in _) (ResultIn.ok_iff.mpr rfl)

theorem indexOf_atom (s t : String) : (indexOf s t).isAtom = true := by
  unfold indexOf
  split <;> rfl

theorem textMethods_sourced : ∀ d ∈ textMethods, d.Sourced := by
  simp only [textMethods, List.forall_mem_cons]
  refine ⟨ofText_sourced _ _ fun _ => rfl, ofText_sourced _ _ fun _ => rfl,
    ofText_sourced _ _ fun _ => rfl, ofText_sourced _ _ fun _ => rfl,
    ofText_sourced _ _ fun _ => rfl, query_sourced_of_atom fun k v vs => ?_,
    query_sourced_of_atom fun k v vs => ?_, query_sourced_of_atom fun k v vs => ?_,
    ofTexts_sourced _ _ indexOf_atom, ofTexts_sourced _ _ fun _ _ => rfl,
    ofTexts_sourced _ _ fun _ _ => rfl, ofTexts_sourced _ _ fun _ _ => rfl,
    ofTexts_sourced _ _ fun _ _ => rfl, query_sourced_of_atom fun k v vs => ?_,
    function_sourced_of_atom fun k vs => ?_, fun _ hd => absurd hd List.not_mem_nil⟩
  · simp [substring_atom]
  · simp [substring_atom]
  · simp only [ResultIn.bind_iff]
    intro s _ v _ i _
    split
    · exact ResultIn.pure_iff.mpr rfl
    · exact fail_in _
  all_goals simp [Value.isAtom]

theorem booleanMethods_sourced : ∀ d ∈ booleanMethods, d.Sourced := by
  simp only [booleanMethods, List.forall_mem_cons]
  refine ⟨function_sourced_of_atom fun k vs => by simp [Value.isAtom],
    function_sourced first_source,
    query_sourced fun _ _ _ => ResultIn.ok_iff.mpr .receiver, nofun⟩

theorem isCharacter_sourced (name : String) (s : CharClass) : (isCharacter name s).Sourced := by
  refine function_sourced_of_atom fun k vs => ResultIn.bind_iff.mpr fun v _ => ?_
  split <;> exact ResultIn.pure_iff.mpr rfl

theorem characterMethods_sourced : ∀ d ∈ characterMethods, d.Sourced := by
  simp only [characterMethods, List.forall_mem_cons, isCharacter_sourced, true_and]
  refine ⟨function_sourced fun k self vs => ResultIn.bind_iff.mpr fun v hv => ?_,
    query_sourced fun _ _ _ => ResultIn.ok_iff.mpr .receiver, nofun⟩
  split
  · exact ResultIn.pure_iff.mpr (.atom rfl)
  · exact ResultIn.pure_iff.mpr (.argument (mem_of_argument hv))

theorem classMethods_sourced : ∀ d ∈ classMethods, d.Sourced := by
  simp only [classMethods, List.forall_mem_cons]
  refine ⟨query_sourced_of_atom fun k v vs => ?_, query_sourced_of_atom fun k v vs => ?_, nofun⟩
  all_goals simp [Value.isAtom]

/-! ## Numbers -/

theorem conversion_sourced (name : String) (returns : TypeRef) (k : NumberKind) :
    (conversion name returns k).Sourced :=
  query_sourced_of_atom fun h v _ => ResultIn.mapError_iff.mpr (Coercion.toNumber_atom h k v)

theorem numberMethods_sourced : ∀ d ∈ numberMethods, d.Sourced := by
  simp [numberMethods, conversion_sourced]

theorem integerReader_sourced (name : String) (returns : TypeRef) (bits : Nat)
    {make : Int → Value} (hmake : ∀ n, (make n).isAtom = true) :
    (integerReader name returns bits make).Sourced :=
  function_sourced_of_atom fun k vs => by simp [hmake]

theorem integerConstructors_sourced : ∀ d ∈ integerConstructors, d.Sourced := by
  simp only [integerConstructors, List.forall_mem_cons]
  exact ⟨constructor_sourced first_source,
    constructor_sourced_of_atom fun k vs => by simp [intValue, Value.isAtom], nofun⟩

theorem integerMethods_sourced : ∀ d ∈ integerMethods, d.Sourced := by
  simp only [integerMethods, List.forall_mem_cons]
  exact ⟨integerReader_sourced _ _ _ fun _ => rfl,
    function_sourced first_source, integerReader_sourced _ _ _ fun _ => rfl,
    function_sourced_of_atom fun k vs => by simp [intOf, Value.isAtom], nofun⟩

theorem longConstructors_sourced : ∀ d ∈ longConstructors, d.Sourced := by
  simp only [longConstructors, List.forall_mem_cons]
  exact ⟨constructor_sourced first_source, nofun⟩

theorem longMethods_sourced : ∀ d ∈ longMethods, d.Sourced := by
  simp only [longMethods, List.forall_mem_cons]
  exact ⟨integerReader_sourced _ _ _ fun _ => rfl,
    function_sourced first_source, nofun⟩

theorem shortMethods_sourced : ∀ d ∈ shortMethods, d.Sourced :=
  List.forall_mem_singleton.mpr (integerReader_sourced _ _ _ fun _ => rfl)

theorem byteMethods_sourced : ∀ d ∈ byteMethods, d.Sourced :=
  List.forall_mem_singleton.mpr (integerReader_sourced _ _ _ fun _ => rfl)

theorem floatMethods_sourced : ∀ d ∈ floatMethods, d.Sourced := by
  simp only [floatMethods, List.forall_mem_cons]
  exact ⟨function_sourced_of_atom fun k vs => by simp [Value.isAtom], nofun⟩

theorem doubleConstructors_sourced : ∀ d ∈ doubleConstructors, d.Sourced := by
  simp only [doubleConstructors, List.forall_mem_cons]
  exact ⟨constructor_sourced first_source, nofun⟩

theorem doubleMethods_sourced : ∀ d ∈ doubleMethods, d.Sourced := by
  simp only [doubleMethods, List.forall_mem_cons]
  refine ⟨function_sourced_of_atom fun k vs => ?_, function_sourced first_source,
    function_sourced_of_atom fun k vs => ?_, nofun⟩
  all_goals simp [Value.isAtom]

theorem bigConstructors_sourced : ∀ d ∈ bigConstructors, d.Sourced := by
  simp only [bigConstructors, List.forall_mem_cons]
  exact ⟨constructor_sourced_of_atom fun k vs => by simp [Value.isAtom], nofun⟩

theorem bigOperation_sourced (name : String) (f : Int → Int → Int) :
    (bigOperation name f).Sourced :=
  query_sourced_of_atom fun k v vs => by simp [Value.isAtom]

theorem bigMethods_sourced : ∀ d ∈ bigMethods, d.Sourced := by
  simp only [bigMethods, List.forall_mem_cons, bigOperation_sourced, true_and]
  refine ⟨function_sourced_of_atom fun k vs => ?_, query_sourced_of_atom fun k v vs => ?_,
    query_sourced_of_atom fun k v vs => ?_, query_sourced_of_atom fun k v vs => ?_, nofun⟩
  · simp [Value.isAtom]
  · simp only [ResultIn.bind_iff]
    intro w _ n _
    exact .ite (fail_in _) (by simp [Value.isAtom])
  · simp [Value.isAtom]
  · simp [intValue, Value.isAtom]

theorem decimalConstructors_sourced : ∀ d ∈ decimalConstructors, d.Sourced := by
  simp only [decimalConstructors, List.forall_mem_cons]
  exact ⟨constructor_sourced_of_atom fun k vs => by simp [Value.isAtom], nofun⟩

theorem decimalOperation_sourced (name : String) (f : Decimal → Decimal → Decimal) :
    (decimalOperation name f).Sourced :=
  query_sourced_of_atom fun k v vs => by simp [Value.isAtom]

theorem decimalMethods_sourced : ∀ d ∈ decimalMethods, d.Sourced := by
  simp only [decimalMethods, List.forall_mem_cons, decimalOperation_sourced, true_and]
  refine ⟨function_sourced_of_atom fun k vs => ?_, query_sourced_of_atom fun k v vs => ?_,
    query_sourced_of_atom fun k v vs => ?_, query_sourced_of_atom fun k v vs => ?_, nofun⟩
  · simp [Value.isAtom]
  · simp [Value.isAtom]
  · simp [intValue, Value.isAtom]
  · exact ResultIn.mapError_iff.mpr (Coercion.toNumber_atom k _ v)

theorem ofDouble_sourced (name : String) (f : Double → Double) : (ofDouble name f).Sourced :=
  function_sourced_of_atom fun k vs => by simp [Value.isAtom]

theorem ofPair_sourced (name : String) (onWords : Int64 → Int64 → Int64)
    (onDoubles : Double → Double → Double) : ∀ d ∈ ofPair name onWords onDoubles, d.Sourced := by
  simp only [ofPair, List.forall_mem_cons]
  refine ⟨function_sourced_of_atom fun k vs => ?_, function_sourced_of_atom fun k vs => ?_,
    function_sourced_of_atom fun k vs => ?_, nofun⟩
  all_goals simp [int32, Value.isAtom]

theorem mathMethods_sourced : ∀ d ∈ mathMethods, d.Sourced := by
  simp only [mathMethods, List.forall_mem_append, List.forall_mem_cons, ofDouble_sourced, true_and]
  refine ⟨⟨⟨⟨function_sourced_of_atom fun k vs => ?_, function_sourced_of_atom fun k vs => ?_,
    nofun⟩, ofPair_sourced _ _ _⟩, ofPair_sourced _ _ _⟩, function_sourced_of_atom fun k vs => ?_,
    function_sourced_of_atom fun k vs => ?_, nofun⟩
  all_goals simp [Value.isAtom]

/-! ## Collections -/

theorem ofItems_sourced (name : String) (returns : TypeRef) {f : List Value → Value}
    (hf : ∀ vs, (f vs).isAtom = true) : (ofItems name returns f).Sourced :=
  query_sourced_of_atom fun k v vs => by simp [hf]

theorem itemCount_sourced : ∀ d ∈ itemCount, d.Sourced := by
  simp only [itemCount, List.forall_mem_cons]
  exact ⟨ofItems_sourced _ _ fun _ => rfl, ofItems_sourced _ _ fun _ => rfl, nofun⟩

theorem holdsItem_sourced : holdsItem.Sourced :=
  query_sourced_of_atom fun k v vs => by simp [Value.isAtom]

theorem listMethods_sourced : ∀ d ∈ listMethods, d.Sourced := by
  simp only [listMethods, List.forall_mem_append, List.forall_mem_cons]
  refine ⟨itemCount_sourced, query_sourced fun k self vs => ?_, holdsItem_sourced,
    command_sourced fun k self vs => ?_, nofun⟩
  · refine ResultIn.bind_iff.mpr fun items hitems => ResultIn.bind_iff.mpr fun _ _ =>
      ResultIn.bind_iff.mpr fun i _ => ?_
    obtain ⟨a, rfl⟩ := items_of_asItems hitems
    split
    · next v hv => exact ResultIn.pure_iff.mpr (.item a (List.mem_of_getElem? hv))
    · exact fail_in _
  · cases self <;> try exact mismatch_in _ _ _
    exact ResultIn.bind_iff.mpr fun v hv => ResultIn.pure_iff.mpr (.item rfl (mem_of_argument hv))

theorem setMethods_sourced : ∀ d ∈ setMethods, d.Sourced := by
  simp only [setMethods, List.forall_mem_append, List.forall_mem_cons]
  refine ⟨itemCount_sourced, holdsItem_sourced, command_sourced fun k self vs => ?_, nofun⟩
  cases self <;> try exact mismatch_in _ _ _
  refine ResultIn.bind_iff.mpr fun v hv => ?_
  split
  · exact ResultIn.pure_iff.mpr (.nothing rfl)
  · next habsent =>
    exact ResultIn.pure_iff.mpr (.member rfl (mem_of_argument hv) (Bool.eq_false_iff.mpr habsent))

theorem ofEntries_sourced (name : String) (returns : TypeRef) {f : List (Value × Value) → Value}
    (hf : ∀ es, (f es).isAtom = true) : (ofEntries name returns f).Sourced :=
  query_sourced_of_atom fun k v vs => by simp [hf]

theorem mapMethods_sourced : ∀ d ∈ mapMethods, d.Sourced := by
  simp only [mapMethods, List.forall_mem_cons]
  refine ⟨ofEntries_sourced _ _ fun _ => rfl, ofEntries_sourced _ _ fun _ => rfl,
    query_sourced fun k self vs => ?_, query_sourced_of_atom fun k v vs => ?_,
    command_sourced fun k self vs => ?_, command_sourced fun k self vs => ?_,
    command_sourced fun k self vs => ?_, nofun⟩
  · refine ResultIn.bind_iff.mpr fun key _ => ResultIn.bind_iff.mpr fun es hes => ?_
    obtain ⟨a, rfl⟩ := entries_of_asEntries hes
    exact ResultIn.pure_iff.mpr (Heap.source_lookup a key)
  · simp [Value.isAtom]
  · cases self <;> try exact mismatch_in _ _ _
    exact ResultIn.bind_iff.mpr fun key hkey => ResultIn.bind_iff.mpr fun v hv =>
      ResultIn.pure_iff.mpr (.entry rfl (mem_of_argument hkey) (mem_of_argument hv))
  · refine ResultIn.bind_iff.mpr fun es hes => ?_
    obtain ⟨a, rfl⟩ := entries_of_asEntries hes
    exact ResultIn.pure_iff.mpr (.keys a)
  · refine ResultIn.bind_iff.mpr fun es hes => ?_
    obtain ⟨a, rfl⟩ := entries_of_asEntries hes
    exact ResultIn.pure_iff.mpr (.values a)

theorem instantMethods_sourced : ∀ d ∈ instantMethods, d.Sourced := by
  simp only [instantMethods, List.forall_mem_cons]
  refine ⟨query_sourced_of_atom fun k v vs => ?_, query_sourced_of_atom fun k v vs => ?_,
    function_sourced_of_atom fun k vs => ResultIn.bind_iff.mpr fun v _ => ?_, nofun⟩
  · simp [Value.isAtom]
  · simp [Value.isAtom]
  · split
    · exact ResultIn.pure_iff.mpr rfl
    · exact ResultIn.pure_iff.mpr rfl
    · exact .throw

theorem lambdaMethods_sourced : ∀ d ∈ lambdaMethods, d.Sourced :=
  List.forall_mem_singleton.mpr (.invoke rfl)

/-! ## All classes -/

theorem methods_sourced (b : Builtin) : ∀ d ∈ b.methods, d.Sourced := by
  cases b with
  | object => exact objectMethods_sourced
  | string => exact textMethods_sourced
  | boolean => exact booleanMethods_sourced
  | character => exact characterMethods_sourced
  | number => exact numberMethods_sourced
  | byte => exact byteMethods_sourced
  | short => exact shortMethods_sourced
  | integer => exact integerMethods_sourced
  | long => exact longMethods_sourced
  | float => exact floatMethods_sourced
  | double => exact doubleMethods_sourced
  | bigInteger => exact bigMethods_sourced
  | bigDecimal => exact decimalMethods_sourced
  | math => exact mathMethods_sourced
  | list => exact listMethods_sourced
  | set => exact setMethods_sourced
  | map => exact mapMethods_sourced
  | instant => exact instantMethods_sourced
  | cls => exact classMethods_sourced
  | lambda => exact lambdaMethods_sourced

theorem constructors_sourced (b : Builtin) : ∀ d ∈ b.constructors, d.Sourced := by
  cases b with
  | integer => exact integerConstructors_sourced
  | long => exact longConstructors_sourced
  | double => exact doubleConstructors_sourced
  | bigInteger => exact bigConstructors_sourced
  | bigDecimal => exact decimalConstructors_sourced
  | _ => exact nofun

/-- The constants of the builtin classes hold no other values. -/
theorem fields_atom (b : Builtin) : ∀ f ∈ b.fields, f.value.isAtom = true := by
  cases b <;> simp [fields, booleanFields, byteFields, shortFields, integerFields, longFields,
    floatFields, doubleFields, bigFields, decimalFields, mathFields, extremes, Value.isAtom]

end Builtin

end ExprLang
