import ExprLang.Proofs.Lineage.Subclassing

/-! The rules by which values of one type are stored where another one is declared. Among types without
primitives this is a preorder just where subclassing is transitive. -/

namespace ExprLang

/-- No primitive stands anywhere in the type. -/
def TypeRef.isReference : TypeRef → Bool
  | primitive _ => false
  | array component => component.isReference
  | _ => true

theorem TypeRef.isPrimitive_of_isReference {t : TypeRef} (h : t.isReference = true) :
    t.isPrimitive = false := by
  cases t <;> first | rfl | cases h

namespace Lineage
variable {l : Lineage} {c d : ClassId} {t u s : TypeRef}

/-! ## Types that classes describe -/

/-- Only builtin classes describe values of a type other than the class. -/
def Proper (l : Lineage) : Prop := ∀ n, (l.shape (.host n)).stands = none

theorem proper_of_hosts (h : ∀ s ∈ l.hosts, s.stands = none) : l.Proper := by
  intro n
  rcases l.shape_host n with hs | hs
  · exact h _ hs
  · rw [hs]
    rfl

theorem asType_host (hl : l.Proper) (n : Nat) : l.asType (.host n) = .named (.host n) := by
  rw [asType, hl n]
  rfl

theorem asType_ne_array (hl : l.Proper) (c : ClassId) (t : TypeRef) : l.asType c ≠ .array t := by
  cases c with
  | builtin b => cases b <;> rintro ⟨⟩
  | host n =>
    rw [asType_host hl]
    rintro ⟨⟩

theorem asType_ne_void (hl : l.Proper) (c : ClassId) : l.asType c ≠ .void := by
  cases c with
  | builtin b => cases b <;> rintro ⟨⟩
  | host n =>
    rw [asType_host hl]
    rintro ⟨⟩

/-- A class that describes a class describes itself. -/
theorem eq_of_asType_named (hl : l.Proper) (h : l.asType c = .named d) : c = d := by
  cases c with
  | builtin b =>
    cases b <;> cases h
    rfl
  | host n =>
    rw [asType_host hl] at h
    cases h
    rfl

/-- The classes of numbers extend that of all numbers. -/
theorem isSubclass_number (hl : l.Proper) (h : (l.asType c).isNumeric = true) :
    l.isSubclass c (.builtin .number) = true := by
  cases c with
  | builtin b =>
    cases b <;> first
      | exact isSubclass_refl l _
      | exact isSubclass_of_inherits (.inl rfl)
      | cases h
  | host n =>
    rw [asType_host hl] at h
    cases h

/-! ## The rules -/

/-- Values of the second type are stored where the first one is declared. -/
inductive Stores (l : Lineage) : TypeRef → TypeRef → Prop
  | same (t : TypeRef) : Stores l t t
  | object {s : TypeRef} (hs : s ≠ .void) : Stores l .object s
  | number {s : TypeRef} (hs : s.isNumeric = true) : Stores l .number s
  | array {t s : TypeRef} (h : Stores l t s) : Stores l (.array t) (.array s)
  | subclass {c d : ClassId} (h : l.isSubclass c d = true) : Stores l (.named d) (.named c)
  | described {c d : ClassId} {t : TypeRef} (h : l.isSubclass c d = true) (ht : l.asType d = t) :
    Stores l t (.named c)

/-- What the walks of the ancestors and interfaces look for is a class that describes the target. -/
theorem any_asType_iff :
    ((l.ancestors c).any (fun k => l.asType k == t) ||
      (l.allInterfaces c).any (fun k => l.asType k == t)) = true ↔
      ∃ d, l.isSubclass c d = true ∧ l.asType d = t := by
  simp only [isSubclass_iff_mem, Bool.or_eq_true, List.any_eq_true, beq_iff_eq, or_and_right,
    exists_or]

theorem stores_of_accepts (ht : t.isReference = true) (hs : s.isReference = true)
    (h : l.accepts t s = true) : l.Stores t s := by
  unfold accepts at h
  rw [Bool.or_eq_true, beq_iff_eq, Bool.and_eq_true, Bool.and_eq_true, bne_iff_ne, bne_iff_ne] at h
  rcases h with rfl | ⟨⟨-, hvoid⟩, h⟩
  · exact .same t
  · cases s with
    | primitive p => cases hs
    | boxed p =>
      simp only [Bool.or_eq_true, Bool.and_eq_true, beq_iff_eq] at h
      rcases h with (rfl | rfl) | ⟨rfl, hnumeric⟩
      · exact .object hvoid
      · cases ht
      · exact .number hnumeric
    | named c =>
      cases t with
      | object => exact .object hvoid
      | named d => exact .subclass h
      | _ =>
        obtain ⟨d, hd, htype⟩ := any_asType_iff.mp h
        exact .described hd htype
    | _ =>
      simp only [Bool.or_eq_true, Bool.and_eq_true, beq_iff_eq] at h
      rcases h with rfl | ⟨rfl, hnumeric⟩
      · exact .object hvoid
      · exact .number hnumeric

theorem accepts_of_described (hl : l.Proper) (hd : l.isSubclass c d = true) :
    l.accepts (l.asType d) (.named c) = true := by
  have hany := any_asType_iff.mpr ⟨d, hd, rfl⟩
  have hvoid := asType_ne_void hl d
  cases hd' : l.asType d with
  | void => exact absurd hd' hvoid
  | named e =>
    rw [eq_of_asType_named hl hd'] at hd
    simp [accepts, hd]
  | object => simp [accepts]
  | _ => rw [hd'] at hany; simp only [accepts, hany]; rfl

theorem stores_iff_accepts (hl : l.Proper) (ht : t.isReference = true) (hs : s.isReference = true)
    (hne : ∀ a b, t = .array a → s = .array b → False) :
    l.Stores t s ↔ l.accepts t s = true := by
  refine ⟨fun h => ?_, stores_of_accepts ht hs⟩
  cases h with
  | same => simp [accepts]
  | object hvoid => cases s <;> simp_all [accepts, TypeRef.isReference]
  | number hnumeric => cases s <;> simp_all [accepts, TypeRef.isReference, TypeRef.isNumeric]
  | array h => exact (hne _ _ rfl rfl).elim
  | subclass h => simp [accepts, h]
  | described h htype => exact htype ▸ accepts_of_described hl h

/-- Arrays without primitives follow their components. -/
theorem assignable_array (hs : s.isReference = true) :
    l.assignable (.array t) (.array s) = true ↔ t = s ∨ l.assignable t s = true := by
  rw [assignable, TypeRef.isPrimitive_of_isReference hs, Bool.not_false, Bool.true_and, Bool.or_eq_true,
    beq_iff_eq]

theorem assignable_iff_stores (hl : l.Proper) (ht : t.isReference = true)
    (hs : s.isReference = true) : l.assignable t s = true ↔ l.Stores t s := by
  induction t, s using assignable.induct with
  | case1 a b ih =>
    have hb : b.isReference = true := hs
    rw [assignable_array hb, ih ht hb]
    constructor
    · rintro (rfl | h)
      · exact .same _
      · exact .array h
    · intro h
      cases h with
      | same => exact .inl rfl
      | array h => exact .inr h
  | case2 t s hne =>
    rw [assignable.eq_2 l t s hne, stores_iff_accepts hl ht hs hne]

/-! ## A preorder -/

theorem Stores.eq_void (h : l.Stores t .void) : t = .void := by
  cases h with
  | same => rfl
  | object hvoid => exact absurd rfl hvoid
  | number hnumeric => cases hnumeric

theorem Stores.trans (hl : l.Proper) (htrans : l.Transitive) (htu : l.Stores t u)
    (hus : l.Stores u s) : l.Stores t s := by
  induction htu generalizing s with
  | same => exact hus
  | object hvoid =>
    refine .object ?_
    rintro rfl
    exact hvoid hus.eq_void
  | number hnumeric =>
    cases hus with
    | same => exact .number hnumeric
    | number hs => exact .number hs
    | described hd htype =>
      exact .described (htrans _ _ _ hd (isSubclass_number hl (htype ▸ hnumeric))) rfl
    | _ => cases hnumeric
  | array h ih =>
    cases hus with
    | same => exact .array h
    | array h' => exact .array (ih h')
    | described hd htype => exact absurd htype (asType_ne_array hl _ _)
  | subclass h =>
    cases hus with
    | same => exact .subclass h
    | subclass h' => exact .subclass (htrans _ _ _ h' h)
    | described hd htype =>
      rw [eq_of_asType_named hl htype] at hd
      exact .subclass (htrans _ _ _ hd h)
  | described h htype =>
    cases hus with
    | same => exact .described h htype
    | subclass h' => exact .described (htrans _ _ _ h' h) htype
    | described hd hnamed =>
      rw [eq_of_asType_named hl hnamed] at hd
      exact .described (htrans _ _ _ hd h) htype

theorem assignable_named_iff :
    l.assignable (.named d) (.named c) = true ↔ l.isSubclass c d = true := by
  rw [assignable.eq_2 l (.named d) (.named c) nofun]
  simp only [accepts, Bool.or_eq_true, beq_iff_eq, Bool.and_eq_true, TypeRef.named.injEq]
  constructor
  · rintro (rfl | ⟨-, h⟩)
    · exact isSubclass_refl l d
    · exact h
  · exact fun h => .inr ⟨⟨rfl, rfl⟩, h⟩

/-- Storing is a preorder of the types without primitives just where subclassing is transitive, which it is
where what is implemented extends nothing. Objects stand above all of these types but `void`, and arrays
are ordered as their components are. -/
theorem storing_preordered_iff (hl : l.Proper) :
    (∀ t, l.assignable t t = true) ∧
      (∀ t, t.isReference = true → (l.assignable .object t = true ↔ t ≠ .void)) ∧
      (∀ t s, t.isReference = true → s.isReference = true →
        (l.assignable (.array t) (.array s) = true ↔ l.assignable t s = true)) ∧
      ((∀ t u s, t.isReference = true → u.isReference = true → s.isReference = true →
        l.assignable t u = true → l.assignable u s = true → l.assignable t s = true) ↔
          l.Transitive) ∧
      (l.Layered → l.Transitive) := by
  have hrefl (t : TypeRef) : l.assignable t t = true := by
    cases t <;> simp [assignable, accepts]
  refine ⟨hrefl, fun t ht => ?_, fun t s ht hs => ?_, ⟨fun h c d e hcd hde => ?_, ?_⟩,
    Layered.transitive⟩
  · rw [assignable_iff_stores hl rfl ht]
    refine ⟨?_, .object⟩
    rintro h rfl
    cases h.eq_void
  · rw [assignable_array hs]
    refine ⟨?_, .inr⟩
    rintro (rfl | h)
    · exact hrefl t
    · exact h
  · rw [← assignable_named_iff] at hcd hde ⊢
    exact h _ _ _ rfl rfl rfl hde hcd
  · intro htrans t u s ht hu hs htu hus
    rw [assignable_iff_stores hl ht hu] at htu
    rw [assignable_iff_stores hl hu hs] at hus
    exact (assignable_iff_stores hl ht hs).mpr (htu.trans hl htrans hus)

/-- A class that extends that of boxed integers and implements that of lists. -/
def extendedInteger : Lineage :=
  ⟨#[⟨"N", .plain, some (.builtin .integer), [.builtin .list], none⟩]⟩

/-- Arrays of its objects are stored as arrays of numbers. -/
theorem extended_integer_number :
    extendedInteger.Proper ∧ extendedInteger.Layered ∧
      extendedInteger.assignable (.array .number) (.array (.named (.host 0))) = true := by
  have hproper : extendedInteger.Proper := proper_of_hosts (by simp [extendedInteger])
  have hlayered : extendedInteger.Layered := by
    refine layered_of_hosts fun s hs i hi => ?_
    cases Array.mem_singleton.mp hs
    cases List.mem_singleton.mp hi
    rfl
  obtain ⟨-, -, harray, htrans, hlays⟩ := storing_preordered_iff hproper
  have hextends : extendedInteger.isSubclass (.host 0) (.builtin .integer) = true :=
    isSubclass_iff_mem.mpr (.inl (mem_ancestors.mpr (.single rfl)))
  have hinteger : extendedInteger.assignable (.boxed .int) (.named (.host 0)) = true :=
    (assignable_iff_stores hproper rfl rfl).mpr (.described hextends rfl)
  have hnumber : extendedInteger.assignable .number (.boxed .int) = true := rfl
  refine ⟨hproper, hlayered, (harray _ _ rfl rfl).mpr ?_⟩
  exact htrans.mpr (hlays hlayered) _ _ _ rfl rfl rfl hnumber hinteger

/-- A class that implements that of boxed integers, which is no interface. -/
def implementedInteger : Lineage :=
  ⟨#[⟨"N", .plain, some (.builtin .object), [.builtin .integer], none⟩]⟩

/-- No interface extends a class. The objects of the class are stored as integers, and these as numbers,
but the objects are not stored as numbers. -/
theorem implemented_integer_no_number :
    implementedInteger.Proper ∧
      (∀ c, (implementedInteger.shape c).kind = .interface → implementedInteger.superclass? c = none) ∧
      implementedInteger.assignable (.boxed .int) (.named (.host 0)) = true ∧
      implementedInteger.assignable .number (.boxed .int) = true ∧
      implementedInteger.assignable .number (.named (.host 0)) = false := by
  have hancestors : implementedInteger.ancestors (.host 0) =
      [.host 0, .builtin .object] := ancestors_below_object rfl
  have hinterfaces : implementedInteger.allInterfaces (.host 0) = [.builtin .integer] := by cbv
  refine ⟨proper_of_hosts (by simp [implementedInteger]), ?_, ?_, rfl, ?_⟩
  · rintro (b | n) hkind
    · cases b <;> first | rfl | cases hkind
    · rcases implementedInteger.shape_host n with hs | hs
      · rw [Array.mem_singleton.mp hs] at hkind
        cases hkind
      · rw [hs] at hkind
        cases hkind
  · simp only [assignable, accepts, hancestors, hinterfaces]
    rfl
  · simp only [assignable, accepts, hancestors, hinterfaces]
    rfl

end Lineage

end ExprLang
