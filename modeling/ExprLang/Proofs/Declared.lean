import ExprLang.BeanProperty
import ExprLang.Builtin.Table
import ExprLang.Overload
import ExprLang.Proofs.Bindings
import ExprLang.Proofs.Lineage.Subclassing
import ExprLang.Proofs.Method.Table
import ExprLang.Proofs.Overload.Contenders

/-! Every method that a class offers, that an overload or a property stands for, is one that some class
declares. -/

namespace ExprLang

theorem ok_of_bind {α β ε : Type} {x : Except ε α} {f : α → Except ε β} {b : β}
    (h : x >>= f = .ok b) : ∃ a, x = .ok a ∧ f a = .ok b := by
  cases x with
  | ok a => exact ⟨a, rfl, h⟩
  | error e => cases h

namespace ClassTable
variable {t : ClassTable} {m : Method} {c : ClassId}

/-- A method or a constructor that a class declares. -/
def Declares (t : ClassTable) (m : Method) : Prop :=
  ∃ c, m ∈ (t.members c).methods ∨ m ∈ (t.members c).constructors

theorem mem_methods_of_mem_flatMap {cs : List ClassId}
    (h : m ∈ cs.flatMap fun k => (t.members k).methods) : ∃ k, m ∈ (t.members k).methods := by
  obtain ⟨k, _, hm⟩ := List.mem_flatMap.mp h
  exact ⟨k, hm⟩

/-- Every method that a class offers is declared by some class. -/
theorem mem_methods_of_mem_allMethods (h : m ∈ t.allMethods c) : ∃ k, m ∈ (t.members k).methods := by
  rcases List.mem_append.mp h with h | h <;>
    exact mem_methods_of_mem_flatMap (List.mem_filter.mp (mem_of_mem_unhidden h)).1

theorem declares_of_mem_allMethods (h : m ∈ t.allMethods c) : t.Declares m := by
  obtain ⟨k, hm⟩ := mem_methods_of_mem_allMethods h
  exact ⟨k, .inl hm⟩

/-- A class is a builtin one, one of those of the host, or declares nothing. -/
theorem members_cases (classes : Array HostClass) (c : ClassId) :
    (∃ b : Builtin, (ofHost classes).members c = b.members) ∨
      (∃ k ∈ classes, (ofHost classes).members c = k.members) ∨
        (ofHost classes).members c = default := by
  cases c with
  | builtin b => exact .inl ⟨b, rfl⟩
  | host n =>
    by_cases hn : n < classes.size
    · exact .inr (.inl ⟨classes[n], Array.getElem_mem hn, by simp [ofHost, Array.getD, hn]⟩)
    · refine .inr (.inr ?_)
      simp [ofHost, Array.getD, hn]
      rfl

/-- What holds of the methods of the builtin classes and of those of the host holds of all. -/
theorem forall_declared {classes : Array HostClass} {p : Declaration → Prop}
    (hmethods : ∀ b : Builtin, ∀ d ∈ b.methods, p d)
    (hconstructors : ∀ b : Builtin, ∀ d ∈ b.constructors, p d)
    (hhost : ∀ c ∈ classes, ∀ m, m ∈ c.members.methods ∨ m ∈ c.members.constructors →
      p m.toDeclaration)
    (hm : (ofHost classes).Declares m) : p m.toDeclaration := by
  obtain ⟨c, hm⟩ := hm
  rcases members_cases classes c with ⟨b, hc⟩ | ⟨k, hk, hc⟩ | hc <;> rw [hc] at hm
  · rcases hm with hm | hm
    · exact hmethods b _ (mem_of_mem_place hm)
    · exact hconstructors b _ (mem_of_mem_place hm)
  · exact hhost k hk m hm
  · rcases hm with hm | hm <;> exact (List.not_mem_nil hm).elim

theorem declares_of_method? {id : MethodId} (h : t.method? id = some m) : t.Declares m := by
  have hm := List.mem_of_getElem? h
  refine ⟨id.owner, ?_⟩
  split at hm
  · exact .inr hm
  · exact .inl hm

end ClassTable

namespace Overload
variable {h : Heap} {m : Method}

/-- The method that a call means is one of those to choose from. -/
theorem mem_of_find {owner name : String} {methods : List Method}
    {types : Option (List TypeRef)} {args : List Value}
    (hf : find h owner methods name types args = .ok m) : m ∈ methods := by
  cases types with
  | none => exact mem_of_mem_contenders (List.mem_of_find?_eq_some (find_eq_ok_iff.mp hf))
  | some ts =>
    simp only [find] at hf
    split at hf
    · cases hf
    · split at hf
      · next hm =>
        cases hf
        exact (List.mem_filter.mp (List.mem_of_find?_eq_some hm)).1
      · cases hf

end Overload

/-- The methods of a property are among these; the reader takes nothing, and the writer gives nothing
back. -/
structure BeanProperty.From (ms : List Method) (p : BeanProperty) : Prop where
  reader (m : Method) : p.reader = some m → m ∈ ms ∧ m.params = []
  writer (m : Method) : p.writer = some m → m ∈ ms ∧ m.returns = .void

namespace BeanProperties
variable {l : Lineage} {ms : List Method}

/-- The accessors are among these methods; the readers take nothing, and the writers give nothing
back. -/
structure Accessors.From (ms : List Method) (a : Accessors) : Prop where
  test (m : Method) : a.test = some m → m ∈ ms ∧ m.params = []
  reader (m : Method) : a.reader = some m → m ∈ ms ∧ m.params = []
  writers (m : Method) : m ∈ a.writers → m ∈ ms ∧ m.returns = .void

theorem Accessors.From.nothing : Accessors.From ms {} where
  test m h := by cases h
  reader m h := by cases h
  writers m h := by cases h

/-- What the signature of a method in this role says. -/
def Role.Fits (m : Method) : Role → Prop
  | .test | .reader => m.params = []
  | .writer => m.returns = .void

theorem fits_of_role? {m : Method} {role : Role} {name : String} (h : role? m = some (role, name)) :
    role.Fits m := by
  have hrole {r : Role} {o : Option String} (h : o.map (r, ·) = some (role, name)) : role = r := by
    obtain ⟨_, -, he⟩ := Option.map_eq_some_iff.mp h
    exact (congrArg Prod.fst he).symm
  unfold role? at h
  split at h
  · cases h
  split at h
  · split at h
    · next htest =>
      rw [hrole h]
      exact List.isEmpty_iff.mp (Bool.and_eq_true_iff.mp htest).1
    · cases h
  split at h
  · split at h
    · next hreader =>
      rw [hrole h]
      exact List.isEmpty_iff.mp hreader
    · cases h
  split at h
  · split at h
    · next hwriter =>
      rw [hrole h]
      exact beq_iff_eq.mp (Bool.and_eq_true_iff.mp hwriter).2
    · cases h
  · cases h

theorem Accessors.From.add {a : Accessors} {m : Method} {role : Role} {name : String}
    (ha : a.From ms) (hm : m ∈ ms) (hrole : role? m = some (role, name)) :
    (a.add m role).From ms := by
  have hfits := fits_of_role? hrole
  cases role with
  | test => exact { ha with test := fun n hn => by cases hn; exact ⟨hm, hfits⟩ }
  | reader => exact { ha with reader := fun n hn => by cases hn; exact ⟨hm, hfits⟩ }
  | writer =>
    refine { ha with writers := fun n hn => ?_ }
    rcases List.mem_append.mp hn with hn | hn
    · exact ha.writers n hn
    · rw [List.mem_singleton.mp hn]
      exact ⟨hm, hfits⟩

theorem scan_from (ms : List Method) : ∀ e ∈ scan ms, e.2.From ms := by
  refine List.foldlRecOn (motive := fun found : Bindings Accessors => ∀ e ∈ found, e.2.From ms)
    ms _ (fun _ h => by cases h) fun found hfound m hm => ?_
  split
  · next role name hrole =>
    intro e he
    rcases Bindings.mem_of_mem_insert he with rfl | he
    · refine Accessors.From.add ?_ hm hrole
      cases hn : found.find? name with
      | none => exact .nothing
      | some b => exact hfound _ (Bindings.mem_of_find? hn)
    · exact hfound e he
  · exact hfound

theorem mem_of_narrowest {ns : List Method} {type : TypeRef} {chosen : Option Method} {m : Method}
    (h : narrowest l type chosen ns = some m) : chosen = some m ∨ m ∈ ns := by
  induction ns generalizing type chosen with
  | nil => exact .inl h
  | cons n ns ih =>
    simp only [narrowest] at h
    split at h
    · rcases ih h with hn | hn
      · cases hn
        exact .inr List.mem_cons_self
      · exact .inr (List.mem_cons_of_mem n hn)
    · rcases ih h with hn | hn
      · exact .inl hn
      · exact .inr (List.mem_cons_of_mem n hn)

theorem mem_of_chooseWriter {read : Option TypeRef} {writers : List Method} {m : Method}
    (h : chooseWriter l read writers = some m) : m ∈ writers := by
  rcases Option.or_eq_some_iff.mp h with h | ⟨_, h⟩
  · obtain ⟨type, _, hm⟩ := Option.bind_eq_some_iff.mp h
    exact List.mem_of_find?_eq_some hm
  · obtain ⟨type, _, hm⟩ := Option.bind_eq_some_iff.mp h
    rcases mem_of_narrowest hm with hm | hm
    · cases hm
    · exact List.mem_mergeSort.mp hm

theorem ofMethods_from (l : Lineage) (ms : List Method) : ∀ e ∈ ofMethods l ms, e.2.From ms := by
  intro e he
  obtain ⟨⟨name, a⟩, ha, he⟩ := List.mem_filterMap.mp he
  obtain ⟨p, hp, rfl⟩ := Option.map_eq_some_iff.mp he
  obtain ⟨type, _, rfl⟩ := Option.map_eq_some_iff.mp hp
  have hfrom := scan_from ms _ ha
  refine ⟨fun m hm => ?_, fun m hm => hfrom.writers m (mem_of_chooseWriter hm)⟩
  rcases Option.or_eq_some_iff.mp hm with hm | ⟨_, hm⟩
  · exact hfrom.test m hm
  · exact hfrom.reader m hm

/-- The methods of a property of a class are ones that the class offers. -/
theorem from_of_ofClass {t : ClassTable} {c : ClassId} {name : String} {p : BeanProperty}
    (hp : (ofClass t c).find? name = some p) : p.From (t.allMethods c) := by
  rcases Bindings.mem_of_mem_override (Bindings.mem_of_find? hp) with h | h
  · have hd := ofMethods_from _ _ _ h
    exact ⟨fun m hm => (hd.reader m hm).imp_left (List.mem_append_right _),
      fun m hm => (hd.writer m hm).imp_left (List.mem_append_right _)⟩
  · have hd := ofMethods_from _ _ _ h
    exact ⟨fun m hm => (hd.reader m hm).imp_left (List.mem_append_left _),
      fun m hm => (hd.writer m hm).imp_left (List.mem_append_left _)⟩

/-- The methods of a property of a class are ones that some class declares. -/
theorem declares_of_ofClass {t : ClassTable} {c : ClassId} {name : String} {p : BeanProperty}
    (hp : (ofClass t c).find? name = some p) {m : Method}
    (hm : p.reader = some m ∨ p.writer = some m) : t.Declares m := by
  have hfrom := from_of_ofClass hp
  rcases hm with hm | hm
  · exact ClassTable.declares_of_mem_allMethods (hfrom.reader m hm).1
  · exact ClassTable.declares_of_mem_allMethods (hfrom.writer m hm).1

end BeanProperties

/-! ## Getters -/

/-- A method that reads a property of objects or a component of records. -/
inductive ClassTable.Getter (t : ClassTable) (m : Method) : Prop
  | property {c : ClassId} {name : String} {p : BeanProperty}
      (hp : (BeanProperties.ofClass t c).find? name = some p) (hm : p.reader = some m)
  | component {c : ClassId} {name : String} (hc : ((t.members c).component? name).isSome = true)
      (hm : (t.allMethods c).find? (fun k => k.name == name && k.params.isEmpty && !k.isStatic) =
        some m)

/-- A getter is declared by some class, and takes nothing. -/
theorem ClassTable.Getter.declared {t : ClassTable} {m : Method} (h : t.Getter m) :
    ∃ c, m ∈ (t.members c).methods ∧ m.params = [] := by
  have hoffered : ∃ c, m ∈ t.allMethods c ∧ m.params = [] := by
    cases h with
    | @property c _ _ hp hm => exact ⟨c, (BeanProperties.from_of_ofClass hp).reader m hm⟩
    | @component c _ _ hm =>
      have hfound := List.find?_some hm
      simp only [Bool.and_eq_true, List.isEmpty_iff] at hfound
      exact ⟨c, List.mem_of_find?_eq_some hm, hfound.1.2⟩
  obtain ⟨c, hm, hparams⟩ := hoffered
  obtain ⟨k, hm⟩ := ClassTable.mem_methods_of_mem_allMethods hm
  exact ⟨k, hm, hparams⟩

/-! ## Builtin classes -/

theorem Builtin.methods_return (b : Builtin) {d : Declaration} (hd : d ∈ b.methods) :
    d.returns ≠ .void := by
  have h : b.methods.all (fun d => d.returns != .void) = true := by
    cases b <;> rfl
  exact bne_iff_ne.mp (List.all_eq_true.mp h d hd)

/-- Every method that a builtin class offers gives something back. -/
theorem ClassTable.returns_of_builtin {classes : Array HostClass} {b : Builtin} {m : Method}
    (h : m ∈ (ofHost classes).allMethods (.builtin b)) : m.returns ≠ .void := by
  rcases List.mem_append.mp h with h | h
  · obtain ⟨c, hc, hm⟩ := List.mem_flatMap.mp (List.mem_filter.mp (mem_of_mem_unhidden h)).1
    obtain ⟨d, rfl⟩ := Lineage.ancestors_builtin _ b c hc
    exact Builtin.methods_return d (mem_of_mem_place hm)
  · rw [defaultMethods, Lineage.allInterfaces_builtin] at h
    cases h

/-- Only classes of the host have properties that can be written. -/
theorem BeanProperties.host_of_writer {classes : Array HostClass} {c : ClassId} {name : String}
    {p : BeanProperty} (hp : (ofClass (.ofHost classes) c).find? name = some p) {m : Method}
    (hm : p.writer = some m) : ∃ n, c = .host n := by
  obtain ⟨hoffered, hvoid⟩ := (from_of_ofClass hp).writer m hm
  cases c with
  | host n => exact ⟨n, rfl⟩
  | builtin b => exact absurd hvoid (ClassTable.returns_of_builtin hoffered)

end ExprLang

/-! ## Code of builtin methods

The code of builtin methods. It looks at the heap, or changes it where it succeeds; only one method
calls a lambda. -/

namespace ExprLang

/-- The ways in which the code of builtin methods is written. -/
inductive Declaration.Plain (d : Declaration) : Prop where
  | look (f : Value → List Value → Heap → Except Failure Value) :
    d.body = some (fun self args => .look (f self args)) → d.Plain
  | change (f : Value → List Value → Heap → Except Failure (Value × Heap)) :
    d.body = some (fun self args => .change (f self args)) → d.Plain
  | invoke : d.body = some Builtin.invokeLambda → d.Plain

namespace Builtin

variable {name : String} {params : List TypeRef} {returns : TypeRef}

@[simp] theorem query_plain {f : Heap → Value → List Value → Except Failure Value} :
    (query name params returns f).Plain := .look _ rfl

@[simp] theorem command_plain {f : Heap → Value → List Value → Except Failure (Value × Heap)} :
    (command name params returns f).Plain := .change _ rfl

@[simp] theorem function_plain {f : Heap → List Value → Except Failure Value} :
    (function name params returns f).Plain := .look _ rfl

@[simp] theorem constructor_plain {f : Heap → List Value → Except Failure Value} :
    (constructor params f).Plain := .look _ rfl

theorem methods_plain (b : Builtin) : ∀ d ∈ b.methods, d.Plain := by
  cases b with
  | lambda => exact List.forall_mem_singleton.mpr (.invoke rfl)
  | _ =>
    simp [methods, objectMethods, textMethods, booleanMethods, characterMethods, numberMethods,
      byteMethods, shortMethods, integerMethods, longMethods, floatMethods, doubleMethods, bigMethods,
      decimalMethods, mathMethods, listMethods, setMethods, mapMethods, instantMethods, classMethods,
      ofText, ofTexts, isCharacter, conversion, integerReader, bigOperation, decimalOperation,
      ofDouble, ofPair, ofItems, holdsItem, itemCount, ofEntries]

theorem constructors_plain (b : Builtin) : ∀ d ∈ b.constructors, d.Plain := by
  cases b <;> simp [constructors, integerConstructors, longConstructors, doubleConstructors,
    bigConstructors, decimalConstructors]

end Builtin

end ExprLang
