import ExprLang.BeanProperty
import ExprLang.Proofs.Lineage.Assignable
import ExprLang.Proofs.Lineage.Stores
import Mathlib.Data.List.Pairwise

/-! The writer of a property: of those that take what is read, one that takes a type as narrow as
any. -/

namespace ExprLang

/-- Among types without primitives, what is stored as something is stored wherever that is. -/
def Lineage.StoringTransitive (l : Lineage) : Prop :=
  ∀ t u s, t.isReference = true → u.isReference = true → s.isReference = true →
    l.assignable t u = true → l.assignable u s = true → l.assignable t s = true

theorem Lineage.storingTransitive_of_layered {l : Lineage} (hl : l.Proper) (hlayered : l.Layered) :
    l.StoringTransitive := by
  intro t u s ht hu hs htu hus
  rw [assignable_iff_stores hl ht hu] at htu
  rw [assignable_iff_stores hl hu hs] at hus
  exact (assignable_iff_stores hl ht hs).mpr (htu.trans hl hlayered.transitive hus)

theorem Lineage.assignable_self (l : Lineage) (t : TypeRef) : l.assignable t t = true :=
  assignable_of_unboxed rfl

namespace BeanProperties
variable {l : Lineage} {t : TypeRef} {read : Option TypeRef} {chosen : Option Method}
  {m n : Method} {ms writers : List Method}

/-- Writers of types without primitives, no two of which have the same name. -/
structure Comparable (l : Lineage) (writers : List Method) : Prop where
  reference : ∀ m ∈ writers, (written m).isReference = true
  apart : writers.Pairwise fun m n => l.typeName (written m) ≠ l.typeName (written n)

theorem Comparable.eq_of_typeName (hw : Comparable l writers) (hm : m ∈ writers)
    (hn : n ∈ writers) (h : l.typeName (written m) = l.typeName (written n)) : m = n := by
  have : Std.Symm fun m n => l.typeName (written m) ≠ l.typeName (written n) :=
    ⟨fun _ _ => Ne.symm⟩
  by_contra hne
  exact hw.apart.forall hm hn hne h

/-- What is chosen takes a type that was wanted, and none of the writers one that is stored there,
unless it is the same type. Nothing is chosen only where no writer takes what was wanted. -/
theorem narrowest_cases (hl : l.StoringTransitive) (ht : t.isReference = true)
    (hms : ∀ m ∈ ms, (written m).isReference = true) :
    (narrowest l t chosen ms = chosen ∧ ∀ n ∈ ms, l.assignable t (written n) = false) ∨
      ∃ m ∈ ms, narrowest l t chosen ms = some m ∧ l.assignable t (written m) = true ∧
        ∀ n ∈ ms, l.assignable (written m) (written n) = true → written m = written n := by
  induction ms generalizing t chosen with
  | nil => exact .inl ⟨rfl, nofun⟩
  | cons m ms ih =>
    obtain ⟨hm, hrest⟩ := List.forall_mem_cons.mp hms
    cases htm : l.assignable t (written m) with
    | true =>
      rw [narrowest, if_pos htm]
      rcases ih hm hrest with ⟨hchosen, hnone⟩ | ⟨k, hk, hchosen, hmk, hleast⟩
      · refine .inr ⟨m, List.mem_cons_self, hchosen, htm, fun n hn hmn => ?_⟩
        rcases List.mem_cons.mp hn with rfl | hn
        · rfl
        · rw [hnone n hn] at hmn
          cases hmn
      · refine .inr ⟨k, List.mem_cons_of_mem m hk, hchosen, hl _ _ _ ht hm (hrest k hk) htm hmk, ?_⟩
        intro n hn hkn
        rcases List.mem_cons.mp hn with rfl | hn
        · exact TypeRef.eq_of_unboxed (TypeRef.isPrimitive_of_isReference (hrest k hk))
            (TypeRef.isPrimitive_of_isReference hm) (Lineage.assignable_both hkn hmk)
        · exact hleast n hn hkn
    | false =>
      rw [narrowest, if_neg (Bool.eq_false_iff.mp htm)]
      rcases ih ht hrest with ⟨hchosen, hnone⟩ | ⟨k, hk, hchosen, htk, hleast⟩
      · refine .inl ⟨hchosen, fun n hn => ?_⟩
        rcases List.mem_cons.mp hn with rfl | hn
        · exact htm
        · exact hnone n hn
      · refine .inr ⟨k, List.mem_cons_of_mem m hk, hchosen, htk, fun n hn hkn => ?_⟩
        -- A writer that was passed over takes no type that is stored where a later one is.
        rcases List.mem_cons.mp hn with rfl | hn
        · rw [hl _ _ _ ht (hrest k hk) hm htk hkn] at htm
          cases htm
        · exact hleast n hn hkn

/-- The writers in the order of the names of their types. -/
def ordered (l : Lineage) (writers : List Method) : List Method :=
  writers.mergeSort fun m n => l.typeName (written m) ≤ l.typeName (written n)

/-- The type that a writer has to take: what is read, else what the first writer takes. -/
def wanted (l : Lineage) (read : Option TypeRef) (writers : List Method) : Option TypeRef :=
  read.or ((ordered l writers).head?.map written)

theorem chooseWriter_eq (l : Lineage) (read : Option TypeRef) (writers : List Method) :
    chooseWriter l read writers =
      (read.bind fun t => writers.find? fun m => written m == t).or
        ((wanted l read writers).bind fun t => narrowest l t none (ordered l writers)) := rfl

theorem mem_ordered : m ∈ ordered l writers ↔ m ∈ writers := List.mem_mergeSort

/-- A writer of exactly what is read is chosen. -/
theorem chooseWriter_of_read (hw : Comparable l writers) (hm : m ∈ writers) :
    chooseWriter l (some (written m)) writers = some m := by
  obtain ⟨n, hn⟩ := Option.isSome_iff_exists.mp
    (List.find?_isSome (p := fun n => written n == written m).mpr ⟨m, hm, beq_self_eq_true _⟩)
  have htype : written n = written m :=
    eq_of_beq (List.find?_some (p := fun n => written n == written m) hn)
  obtain rfl := hw.eq_of_typeName (List.mem_of_find?_eq_some hn) hm (congrArg l.typeName htype)
  rw [chooseWriter_eq, Option.bind_some, hn]
  rfl

/-- Without a writer of exactly what is read the narrowest one is chosen. -/
theorem chooseWriter_of_not_read (h : ∀ n ∈ writers, read ≠ some (written n)) :
    chooseWriter l read writers =
      (wanted l read writers).bind fun t => narrowest l t none (ordered l writers) := by
  have hnone : (read.bind fun t => writers.find? fun m => written m == t) = none := by
    cases read with
    | none => rfl
    | some t =>
      refine List.find?_eq_none.mpr fun n hn => ?_
      rw [beq_iff_eq]
      exact fun heq => h n hn (congrArg some heq.symm)
  rw [chooseWriter_eq, hnone, Option.none_or]

/-- Where no writer takes exactly what is read, one that takes what is wanted is chosen if there
is one, and no other takes a type that is stored as what the chosen one takes. -/
theorem chooseWriter_cases (hl : l.StoringTransitive) (hread : ∀ t ∈ read, t.isReference = true)
    (hw : Comparable l writers) (h : ∀ n ∈ writers, read ≠ some (written n)) :
    (chooseWriter l read writers = none ∧
        ∀ t ∈ wanted l read writers, ∀ n ∈ writers, l.assignable t (written n) = false) ∨
      ∃ m ∈ writers, chooseWriter l read writers = some m ∧
        (∀ t ∈ read, l.assignable t (written m) = true) ∧
          ∀ n ∈ writers, l.assignable (written m) (written n) = true → n = m := by
  rw [chooseWriter_of_not_read h]
  cases hwanted : wanted l read writers with
  | none => exact .inl ⟨rfl, nofun⟩
  | some t =>
    have ht : t.isReference = true := by
      rcases Option.or_eq_some_iff.mp hwanted with hread' | ⟨-, hfirst⟩
      · exact hread t hread'
      · obtain ⟨m, hm, rfl⟩ := Option.map_eq_some_iff.mp hfirst
        exact hw.reference m (mem_ordered.mp (List.mem_of_head? hm))
    have hordered : ∀ m ∈ ordered l writers, (written m).isReference = true :=
      fun m hm => hw.reference m (mem_ordered.mp hm)
    rcases @narrowest_cases l t none _ hl ht hordered with
      ⟨hchosen, hnone⟩ | ⟨m, hm, hchosen, htm, hleast⟩
    · refine .inl ⟨hchosen, fun u hu n hn => ?_⟩
      cases hu
      exact hnone n (mem_ordered.mpr hn)
    · refine .inr ⟨m, mem_ordered.mp hm, hchosen, fun u hu => ?_, fun n hn hmn => ?_⟩
      · rw [wanted, hu, Option.some_or] at hwanted
        cases hwanted
        exact htm
      · have htype := hleast n (mem_ordered.mpr hn) hmn
        exact hw.eq_of_typeName hn (mem_ordered.mp hm) (congrArg l.typeName htype.symm)

/-- Without anything that is read the first writer takes what is wanted. -/
theorem exists_wanted (h : writers ≠ []) :
    ∃ m ∈ writers, wanted l none writers = some (written m) := by
  cases hordered : ordered l writers with
  | nil =>
    obtain ⟨m, hm⟩ := List.exists_mem_of_ne_nil _ h
    rw [← mem_ordered (l := l), hordered] at hm
    cases hm
  | cons m ms =>
    have hm : m ∈ ordered l writers := hordered ▸ List.mem_cons_self
    refine ⟨m, mem_ordered.mp hm, ?_⟩
    rw [wanted, hordered]
    rfl

/-- The writer that is chosen is one of exactly what is read if there is any, else one that takes
what is read where no other takes something more specific. One is chosen where any of them takes
what is read, and where nothing is read but something written. -/
theorem chosen_writer_most_specific (l : Lineage) (read : Option TypeRef) (writers : List Method)
    (hl : l.StoringTransitive) (hread : ∀ t ∈ read, t.isReference = true)
    (hw : Comparable l writers) :
    (∀ m ∈ writers, read = some (written m) → chooseWriter l read writers = some m) ∧
      (∀ m, chooseWriter l read writers = some m →
        m ∈ writers ∧ (∀ t, read = some t → l.assignable t (written m) = true) ∧
          ((∀ n ∈ writers, read ≠ some (written n)) →
            ∀ n ∈ writers, l.assignable (written m) (written n) = true → n = m)) ∧
      (∀ t, read = some t → (∃ n ∈ writers, l.assignable t (written n) = true) →
        ∃ m, chooseWriter l read writers = some m) ∧
      (read = none → writers ≠ [] → ∃ m, chooseWriter l read writers = some m) := by
  have hexact : ∀ m ∈ writers, read = some (written m) → chooseWriter l read writers = some m := by
    rintro m hm rfl
    exact chooseWriter_of_read hw hm
  by_cases h : ∀ n ∈ writers, read ≠ some (written n)
  · rcases chooseWriter_cases hl hread hw h with ⟨hnone, hothers⟩ | ⟨m, hm, hchosen, htm, hleast⟩
    · refine ⟨hexact, fun m hm => ?_, fun t ht ⟨n, hn, htn⟩ => ?_, fun hno hne => ?_⟩
      · rw [hnone] at hm
        cases hm
      · have hwanted : wanted l read writers = some t := by rw [wanted, ht, Option.some_or]
        rw [hothers t hwanted n hn] at htn
        cases htn
      · subst hno
        obtain ⟨m, hm, hwanted⟩ := exists_wanted (l := l) hne
        have hself := hothers _ hwanted m hm
        rw [l.assignable_self] at hself
        cases hself
    · refine ⟨hexact, fun k hk => ?_, fun _ _ _ => ⟨m, hchosen⟩, fun _ _ => ⟨m, hchosen⟩⟩
      rw [hchosen] at hk
      cases hk
      exact ⟨hm, htm, fun _ => hleast⟩
  · obtain ⟨n, hn, hsame⟩ := not_forall₂.mp h
    obtain rfl := not_not.mp hsame
    have hchosen := hexact n hn rfl
    refine ⟨hexact, fun m hm => ?_, fun _ _ _ => ⟨n, hchosen⟩, nofun⟩
    rw [hchosen] at hm
    cases hm
    refine ⟨hn, fun t ht => ?_, fun hnot => absurd rfl (hnot n hn)⟩
    cases ht
    exact l.assignable_self _

/-- A class, one that extends it, and one that extends that. -/
def generations : Lineage :=
  ⟨#[⟨"A", .plain, some (.builtin .object), [], none⟩, ⟨"AA", .plain, some (.host 0), [], none⟩,
    ⟨"AAA", .plain, some (.host 1), [], none⟩]⟩

/-- A method that writes objects of a class. -/
def valueWriter (n : Nat) : Method :=
  ⟨{ name := "setValue", fixed := [.named (.host n)], returns := .void }, ⟨.host 3, false, n⟩⟩

/-- Where objects of the first class are read and of the two others written, the one for the last
class is chosen. -/
theorem youngest_written :
    generations.StoringTransitive ∧ Comparable generations [valueWriter 1, valueWriter 2] ∧
      chooseWriter generations (some (.named (.host 0))) [valueWriter 1, valueWriter 2] =
        some (valueWriter 2) := by
  have hproper : generations.Proper := Lineage.proper_of_hosts (by simp [generations])
  have hlayered : generations.Layered := by
    refine Lineage.layered_of_hosts fun s hs i hi => ?_
    have hshapes : s.interfaces = [] := by
      simp only [generations, List.mem_toArray, List.mem_cons, List.not_mem_nil, or_false] at hs
      rcases hs with rfl | rfl | rfl <;> rfl
    rw [hshapes] at hi
    cases hi
  have hl := Lineage.storingTransitive_of_layered hproper hlayered
  have hw : Comparable generations [valueWriter 1, valueWriter 2] := ⟨by decide, by decide⟩
  have hextends (n : Nat) (h : generations.superclass? (.host (n + 1)) = some (.host n)) :
      generations.assignable (.named (.host n)) (.named (.host (n + 1))) = true :=
    Lineage.assignable_named_iff.mpr
      (Lineage.isSubclass_iff_mem.mpr (.inl (Lineage.mem_ancestors.mpr (.single h))))
  obtain ⟨-, hchosen, hsome, -⟩ := chosen_writer_most_specific generations (some (.named (.host 0)))
    [valueWriter 1, valueWriter 2] hl (by decide) hw
  obtain ⟨m, hm⟩ := hsome _ rfl ⟨valueWriter 1, List.mem_cons_self, hextends 0 (by decide)⟩
  obtain ⟨hmem, -, hleast⟩ := hchosen m hm
  refine ⟨hl, hw, ?_⟩
  rcases List.mem_pair.mp hmem with rfl | rfl
  · have hsame : valueWriter 2 = valueWriter 1 :=
      hleast (by decide) _ (List.mem_cons_of_mem _ List.mem_cons_self) (hextends 1 (by decide))
    cases congrArg (fun m : Method => m.id.index) hsame
  · exact hm

end BeanProperties

end ExprLang
