import ExprLang.Proofs.Builtin.Blind

/-! Method by method, the builtin classes see no bindings of lambdas. -/

namespace ExprLang.Builtin

variable {t : ClassTable}

/-! ## Objects, texts and characters -/

theorem objectMethods_blind : ∀ d ∈ objectMethods, d.Blind t := by
  simp only [objectMethods, List.forall_mem_cons]
  refine ⟨query_blind_of_bare fun h v vs => ?_, query_blind_of_bare fun h v vs => ?_,
    query_blind_of_bare fun h v vs => ?_, by simp⟩
  · simp
  · simp
  · simp [argument_bare]

theorem ofText_blind (name : String) (returns : TypeRef) (f : String → Value) :
    (ofText name returns f).Blind t :=
  query_blind_of_bare fun h v vs => by simp

theorem ofTexts_blind (name : String) (returns : TypeRef) (f : String → String → Value) :
    (ofTexts name returns f).Blind t :=
  query_blind_of_bare fun h v vs => by simp [argument_bare]

theorem textMethods_blind : ∀ d ∈ textMethods, d.Blind t := by
  simp only [textMethods, List.forall_mem_cons, ofText_blind, ofTexts_blind, true_and]
  refine ⟨query_blind_of_bare fun h v vs => ?_, query_blind_of_bare fun h v vs => ?_,
    query_blind_of_bare fun h v vs => ?_, query_blind_of_bare fun h v vs => ?_,
    function_blind_of_bare fun h vs => ?_, by simp⟩
  all_goals simp [argument_bare]

theorem booleanMethods_blind : ∀ d ∈ booleanMethods, d.Blind t := by
  simp only [booleanMethods, List.forall_mem_cons]
  refine ⟨function_blind_of_bare fun h vs => ?_, function_blind first_alike,
    query_blind fun _ _ _ _ _ _ _ hv _ => .ok hv, by simp⟩
  simp [argument_bare]

theorem isCharacter_blind (name : String) (s : CharClass) : (isCharacter name s).Blind t := by
  refine function_blind fun h k vs ws hh hvs => .bind (argument_alike hvs 0) fun v w hv => ?_
  cases hv with
  | lambda _ _ => exact .ok (.same _)
  | same => exact .alike_of_eq rfl

theorem characterMethods_blind : ∀ d ∈ characterMethods, d.Blind t := by
  simp only [characterMethods, List.forall_mem_cons, isCharacter_blind, true_and]
  refine ⟨function_blind fun h k vs ws hh hvs => .bind (argument_alike hvs 0) fun v w hv => ?_,
    query_blind fun _ _ _ _ _ _ _ hv _ => .ok hv, by simp⟩
  cases hv with
  | lambda hb hc => exact .ok (.lambda hb hc)
  | same => exact .alike_of_eq rfl

theorem classMethods_blind : ∀ d ∈ classMethods, d.Blind t := by
  simp only [classMethods, List.forall_mem_cons]
  refine ⟨query_blind_of_bare fun h v vs => ?_, query_blind_of_bare fun h v vs => ?_, by simp⟩
  all_goals simp

/-! ## Numbers -/

theorem numberMethods_blind : ∀ d ∈ numberMethods, d.Blind t := by
  simp only [numberMethods, List.forall_mem_cons]
  refine ⟨?_, ?_, ?_, ?_, by simp⟩
  all_goals exact query_blind_of_bare fun h v vs => by simp

theorem integerReader_blind (name : String) (returns : TypeRef) (bits : Nat)
    (make : Int → Value) : (integerReader name returns bits make).Blind t :=
  function_blind_of_bare fun h vs => by simp [argument_bare]

theorem integerConstructors_blind : ∀ d ∈ integerConstructors, d.Blind t := by
  simp only [integerConstructors, List.forall_mem_cons]
  refine ⟨constructor_blind first_alike, constructor_blind_of_bare fun h vs => ?_, by simp⟩
  simp [argument_bare]

theorem integerMethods_blind : ∀ d ∈ integerMethods, d.Blind t := by
  simp only [integerMethods, List.forall_mem_cons, integerReader_blind, true_and]
  refine ⟨function_blind first_alike, function_blind_of_bare fun h vs => ?_, by simp⟩
  simp [argument_bare]

theorem longConstructors_blind : ∀ d ∈ longConstructors, d.Blind t := by
  simp only [longConstructors, List.forall_mem_cons]
  exact ⟨constructor_blind first_alike, by simp⟩

theorem longMethods_blind : ∀ d ∈ longMethods, d.Blind t := by
  simp only [longMethods, List.forall_mem_cons, integerReader_blind, true_and]
  exact ⟨function_blind first_alike, by simp⟩

theorem shortMethods_blind : ∀ d ∈ shortMethods, d.Blind t := by
  simp [shortMethods, integerReader_blind]

theorem byteMethods_blind : ∀ d ∈ byteMethods, d.Blind t := by
  simp [byteMethods, integerReader_blind]

theorem floatMethods_blind : ∀ d ∈ floatMethods, d.Blind t := by
  simp only [floatMethods, List.forall_mem_cons]
  refine ⟨function_blind_of_bare fun h vs => ?_, by simp⟩
  simp [argument_bare]

theorem doubleConstructors_blind : ∀ d ∈ doubleConstructors, d.Blind t := by
  simp only [doubleConstructors, List.forall_mem_cons]
  exact ⟨constructor_blind first_alike, by simp⟩

theorem doubleMethods_blind : ∀ d ∈ doubleMethods, d.Blind t := by
  simp only [doubleMethods, List.forall_mem_cons]
  refine ⟨function_blind_of_bare fun h vs => ?_, function_blind first_alike,
    function_blind_of_bare fun h vs => ?_, by simp⟩
  all_goals simp [argument_bare]

theorem bigConstructors_blind : ∀ d ∈ bigConstructors, d.Blind t := by
  simp only [bigConstructors, List.forall_mem_cons]
  refine ⟨constructor_blind_of_bare fun h vs => ?_, by simp⟩
  simp [argument_bare]

theorem bigOperation_blind (name : String) (f : Int → Int → Int) :
    (bigOperation name f).Blind t :=
  query_blind_of_bare fun h v vs => by simp [argument_bare]

theorem bigMethods_blind : ∀ d ∈ bigMethods, d.Blind t := by
  simp only [bigMethods, List.forall_mem_cons, bigOperation_blind, true_and]
  refine ⟨function_blind_of_bare fun h vs => ?_, query_blind_of_bare fun h v vs => ?_,
    query_blind_of_bare fun h v vs => ?_, query_blind_of_bare fun h v vs => ?_, by simp⟩
  all_goals simp [argument_bare]

theorem decimalConstructors_blind : ∀ d ∈ decimalConstructors, d.Blind t := by
  simp only [decimalConstructors, List.forall_mem_cons]
  refine ⟨constructor_blind_of_bare fun h vs => ?_, by simp⟩
  simp [argument_bare]

theorem decimalOperation_blind (name : String) (f : Decimal → Decimal → Decimal) :
    (decimalOperation name f).Blind t :=
  query_blind_of_bare fun h v vs => by simp [argument_bare]

theorem decimalMethods_blind : ∀ d ∈ decimalMethods, d.Blind t := by
  simp only [decimalMethods, List.forall_mem_cons, decimalOperation_blind, true_and]
  refine ⟨function_blind_of_bare fun h vs => ?_, query_blind_of_bare fun h v vs => ?_,
    query_blind_of_bare fun h v vs => ?_, query_blind_of_bare fun h v vs => ?_, by simp⟩
  all_goals simp [argument_bare]

theorem ofDouble_blind (name : String) (f : Double → Double) : (ofDouble name f).Blind t :=
  function_blind_of_bare fun h vs => by simp [argument_bare]

theorem ofPair_blind (name : String) (onWords : Int64 → Int64 → Int64)
    (onDoubles : Double → Double → Double) : ∀ d ∈ ofPair name onWords onDoubles, d.Blind t := by
  simp only [ofPair, List.forall_mem_cons]
  refine ⟨function_blind_of_bare fun h vs => ?_, function_blind_of_bare fun h vs => ?_,
    function_blind_of_bare fun h vs => ?_, by simp⟩
  all_goals simp [argument_bare]

theorem mathMethods_blind : ∀ d ∈ mathMethods, d.Blind t := by
  simp only [mathMethods, List.forall_mem_append, List.forall_mem_cons, ofDouble_blind, true_and]
  refine ⟨⟨⟨⟨function_blind_of_bare fun h vs => ?_, function_blind_of_bare fun h vs => ?_,
    by simp⟩, ofPair_blind _ _ _⟩, ofPair_blind _ _ _⟩, function_blind_of_bare fun h vs => ?_,
    function_blind_of_bare fun h vs => ?_, by simp⟩
  all_goals simp [argument_bare]

/-! ## Collections -/

theorem ofItems_blind (name : String) (returns : TypeRef) {f : List Value → Value}
    (hf : ∀ vs ws, List.Forall₂ (Value.Alike t) vs ws → f vs = f ws) :
    (ofItems name returns f).Blind t :=
  query_blind fun _ _ _ _ _ _ hh hv _ => .bind (asItems_alike hh hv) fun vs ws hvs =>
    .alike_of_eq (congrArg _ (hf vs ws hvs))

theorem itemCount_blind : ∀ d ∈ itemCount, d.Blind t := by
  simp only [itemCount, List.forall_mem_cons]
  refine ⟨ofItems_blind _ _ fun vs ws hvs => ?_, ofItems_blind _ _ fun vs ws hvs => ?_, by simp⟩
  · rw [hvs.length_eq]
  · cases hvs <;> rfl

theorem holdsItem_blind : holdsItem.Blind t :=
  query_blind fun _ _ _ _ _ _ hh hv hvs => .bind (asItems_alike hh hv) fun _ _ hitems =>
    .bind (argument_alike hvs 0) fun _ _ ha => .alike_of_eq (by rw [hh.holds hitems ha])

theorem listMethods_blind : ∀ d ∈ listMethods, d.Blind t := by
  simp only [listMethods, List.forall_mem_append, List.forall_mem_cons]
  refine ⟨itemCount_blind, query_blind fun h k v w vs ws hh hv hvs => ?_, holdsItem_blind,
    command_blind fun h k v w vs ws hh hv hvs => ?_, by simp⟩
  · refine .bind (asItems_alike hh hv) fun items items' hitems =>
      .bind (argument_alike hvs 0) fun _ _ ha => .bind (asIndex_alike hh ha) fun i _ hi => ?_
    subst hi
    have hget := getElem?_of_forall₂ hitems i
    rw [hitems.length_eq]
    generalize items[i]? = x at hget
    generalize items'[i]? = y at hget
    cases hget with
    | some hu => exact .ok hu
    | none => exact .error _
  · cases hv with
    | lambda hb hc => exact mismatch_alike hh (.lambda hb hc) _
    | same =>
      cases v with
      | list a =>
        exact .bind (argument_alike hvs 0) fun _ _ ha =>
          .ok ⟨.same _, hh.put a (.items (List.rel_append (hh.items a) (.cons ha .nil)))⟩
      | _ => exact mismatch_alike hh (.same _) _

theorem setMethods_blind : ∀ d ∈ setMethods, d.Blind t := by
  simp only [setMethods, List.forall_mem_append, List.forall_mem_cons]
  refine ⟨itemCount_blind, holdsItem_blind, command_blind fun h k v w vs ws hh hv hvs => ?_,
    by simp⟩
  cases hv with
  | lambda hb hc => exact mismatch_alike hh (.lambda hb hc) _
  | same =>
    cases v with
    | set a =>
      refine .bind (argument_alike hvs 0) fun _ _ ha => ?_
      rw [hh.holds (hh.items a) ha]
      split
      · exact .ok ⟨.same _, hh⟩
      · exact .ok ⟨.same _, hh.put a (.items (List.rel_append (hh.items a) (.cons ha .nil)))⟩
    | _ => exact mismatch_alike hh (.same _) _

theorem ofEntries_blind (name : String) (returns : TypeRef) {f : List (Value × Value) → Value}
    (hf : ∀ es fs, List.Forall₂ (Value.AlikePair t) es fs → f es = f fs) :
    (ofEntries name returns f).Blind t :=
  query_blind fun _ _ _ _ _ _ hh hv _ => .bind (asEntries_alike hh hv) fun es fs hes =>
    .alike_of_eq (congrArg _ (hf es fs hes))

theorem mapMethods_blind : ∀ d ∈ mapMethods, d.Blind t := by
  simp only [mapMethods, List.forall_mem_cons]
  refine ⟨ofEntries_blind _ _ fun es fs hes => ?_, ofEntries_blind _ _ fun es fs hes => ?_,
    query_blind fun h k v w vs ws hh hv hvs => ?_, query_blind fun h k v w vs ws hh hv hvs => ?_,
    command_blind fun h k v w vs ws hh hv hvs => ?_,
    command_blind fun h k v w vs ws hh hv hvs => ?_,
    command_blind fun h k v w vs ws hh hv hvs => ?_, by simp⟩
  · rw [hes.length_eq]
  · cases hes <;> rfl
  · exact .bind (argument_alike hvs 0) fun _ _ ha => .bind (asEntries_alike hh hv) fun _ _ hes =>
      .ok (getD_alike (hh.lookup? hes ha))
  · refine .bind (argument_alike hvs 0) fun _ _ ha => .bind (asEntries_alike hh hv)
      fun es fs hes => .alike_of_eq ?_
    have hl := hh.lookup? hes ha
    generalize h.lookup? es _ = x at hl
    generalize k.lookup? fs _ = y at hl
    cases hl <;> rfl
  · cases hv with
    | lambda hb hc => exact mismatch_alike hh (.lambda hb hc) _
    | same =>
      cases v with
      | map a =>
        exact .bind (argument_alike hvs 0) fun _ _ ha => .bind (argument_alike hvs 1)
          fun _ _ hb => .ok ⟨getD_alike (hh.lookup? (hh.entries a) ha),
            hh.put a (.entries (hh.putEntry (hh.entries a) ha hb))⟩
      | _ => exact mismatch_alike hh (.same _) _
  · exact .bind (asEntries_alike hh hv) fun _ _ hes =>
      .ok (hh.newSet (List.rel_map (fun _ _ he => he.1) hes))
  · exact .bind (asEntries_alike hh hv) fun _ _ hes =>
      .ok (hh.newList (List.rel_map (fun _ _ he => he.2) hes))

theorem instantMethods_blind : ∀ d ∈ instantMethods, d.Blind t := by
  simp only [instantMethods, List.forall_mem_cons]
  refine ⟨query_blind_of_bare fun h v vs => ?_, query_blind_of_bare fun h v vs => ?_,
    function_blind_of_bare fun h vs => ?_, by simp⟩
  all_goals simp [argument_bare]

/-! ## Lambdas -/

/-- The arguments that a lambda gets where it is called by name. -/
theorem spread_alike {h k : Heap} (hh : Heap.Alike t h k) {vs ws : List Value} :
    List.Forall₂ (Value.Alike t) vs ws → List.Forall₂ (Value.Alike t)
      (match vs with
        | .array a :: _ => (h.array a).2
        | args => args)
      (match ws with
        | .array a :: _ => (k.array a).2
        | args => args) := by
  intro hvs
  cases hvs with
  | nil => exact .nil
  | @cons v w _ _ hv hrest =>
    cases hv with
    | lambda hb hc => exact .cons (.lambda hb hc) hrest
    | same =>
      cases v with
      | array a => exact (hh.array a).2
      | _ => exact .cons (.same _) hrest

theorem lambdaMethods_blind : ∀ d ∈ lambdaMethods, d.Blind t := by
  simp only [lambdaMethods, List.forall_mem_singleton]
  rintro code ⟨⟩ v w vs ws hv hvs
  refine .read fun h k hh => ?_
  cases hv with
  | lambda hb hc =>
    exact .call (.lambda hb hc) (spread_alike hh hvs) fun _ _ hr => .conclude hr
  | same =>
    cases v with
    | lambda f => exact .call (.same _) (spread_alike hh hvs) fun _ _ hr => .conclude hr
    | _ => exact .finish (mismatch_alike hh (.same _) _)

/-! ## All classes -/

theorem methods_blind (b : Builtin) : ∀ d ∈ b.methods, d.Blind t := by
  cases b with
  | object => exact objectMethods_blind
  | string => exact textMethods_blind
  | boolean => exact booleanMethods_blind
  | character => exact characterMethods_blind
  | number => exact numberMethods_blind
  | byte => exact byteMethods_blind
  | short => exact shortMethods_blind
  | integer => exact integerMethods_blind
  | long => exact longMethods_blind
  | float => exact floatMethods_blind
  | double => exact doubleMethods_blind
  | bigInteger => exact bigMethods_blind
  | bigDecimal => exact decimalMethods_blind
  | math => exact mathMethods_blind
  | list => exact listMethods_blind
  | set => exact setMethods_blind
  | map => exact mapMethods_blind
  | instant => exact instantMethods_blind
  | cls => exact classMethods_blind
  | lambda => exact lambdaMethods_blind

theorem constructors_blind (b : Builtin) : ∀ d ∈ b.constructors, d.Blind t := by
  cases b with
  | integer => exact integerConstructors_blind
  | long => exact longConstructors_blind
  | double => exact doubleConstructors_blind
  | bigInteger => exact bigConstructors_blind
  | bigDecimal => exact decimalConstructors_blind
  | _ => exact fun d hd => (List.not_mem_nil hd).elim

end ExprLang.Builtin

namespace ExprLang

/-- The methods of the builtin classes see no bindings of lambdas, so none does where those of the
host do not. -/
theorem ClassTable.declared_blind {classes : Array HostClass} {t : ClassTable}
    (h : ∀ c ∈ classes, ∀ m, m ∈ c.members.methods ∨ m ∈ c.members.constructors → m.Blind t)
    (m : Method) (hm : (ofHost classes).Declares m) : m.Blind t :=
  forall_declared Builtin.methods_blind Builtin.constructors_blind h hm

end ExprLang
