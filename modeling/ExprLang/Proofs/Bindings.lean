import ExprLang.Bindings
import Mathlib.Data.String.Basic

/-! Bindings: which values they hold, and that those in the order of their names are determined by the
values of the names. -/

namespace ExprLang

/-- Bindings of the same names in the same order, to values that are related. -/
inductive Bindings.Rel {α β : Type} (r : α → β → Prop) :
    List (String × α) → List (String × β) → Prop where
  | nil : Rel r [] []
  | cons {n : String} {a : α} {b : β} {c : List (String × α)} {d : List (String × β)} :
    r a b → Rel r c d → Rel r ((n, a) :: c) ((n, b) :: d)

namespace Bindings

variable {α : Type} {b c : Bindings α} {e : String × α}

theorem mem_of_find? {name : String} {a : α} (h : b.find? name = some a) : (name, a) ∈ b := by
  induction b with
  | nil => cases h
  | cons e b ih =>
    simp only [find?] at h
    split at h
    · next hn =>
      cases h
      rw [← eq_of_beq hn]
      exact List.mem_cons_self
    · exact List.mem_cons_of_mem e (ih h)

theorem mem_of_mem_insert {name : String} {a : α} (h : e ∈ b.insert name a) :
    e = (name, a) ∨ e ∈ b := by
  induction b with
  | nil => exact .inl (List.mem_singleton.mp h)
  | cons d b ih =>
    simp only [insert] at h
    split at h
    · rcases List.mem_cons.mp h with h | h
      · exact .inl h
      · exact .inr (List.mem_cons_of_mem d h)
    · split at h
      · rcases List.mem_cons.mp h with h | h
        · exact .inl h
        · exact .inr h
      · rcases List.mem_cons.mp h with h | h
        · exact .inr (List.mem_cons.mpr (.inl h))
        · rcases ih h with h | h
          · exact .inl h
          · exact .inr (List.mem_cons_of_mem d h)

theorem mem_of_mem_override (h : e ∈ b.override c) : e ∈ b ∨ e ∈ c := by
  induction c generalizing b with
  | nil => exact .inl h
  | cons d c ih =>
    rcases ih h with h | h
    · rcases mem_of_mem_insert h with rfl | h
      · exact .inr List.mem_cons_self
      · exact .inl h
    · exact .inr (List.mem_cons_of_mem d h)

/-! ## Order -/

/-- The names stand in ascending order, each once. -/
def Ordered (b : Bindings α) : Prop := b.Pairwise fun x y => x.1 < y.1

/-- No name is bound twice. -/
def Distinct (b : Bindings α) : Prop := b.names.Nodup

theorem find?_eq_none_iff {name : String} : b.find? name = none ↔ name ∉ b.names := by
  induction b with
  | nil => simp [find?, names]
  | cons e rest ih =>
    obtain ⟨n, a⟩ := e
    by_cases h : n = name
    · simp [find?, names, h]
    · simp only [find?, beq_iff_eq, h, if_false, ih, names, List.map_cons, List.mem_cons]
      tauto

theorem Ordered.insert (h : b.Ordered) (name : String) (a : α) : (b.insert name a).Ordered := by
  induction b with
  | nil => simp [Bindings.insert, Ordered]
  | cons e rest ih =>
    obtain ⟨hfirst, hrest⟩ := List.pairwise_cons.mp h
    simp only [Bindings.insert, beq_iff_eq]
    split
    · next hn =>
      subst hn
      exact List.pairwise_cons.mpr ⟨hfirst, hrest⟩
    · next hn =>
      split
      · next hlt =>
        refine List.pairwise_cons.mpr ⟨fun f hf => ?_, h⟩
        obtain rfl | hf := List.mem_cons.mp hf
        · exact hlt
        · exact hlt.trans (hfirst f hf)
      · next hge =>
        refine List.pairwise_cons.mpr ⟨fun f hf => ?_, ih hrest⟩
        obtain rfl | hf := mem_of_mem_insert hf
        · exact lt_of_le_of_ne (not_lt.mp hge) hn
        · exact hfirst f hf

theorem Ordered.distinct (h : b.Ordered) : b.Distinct :=
  List.pairwise_map.mpr (h.imp fun hlt => ne_of_lt hlt)

theorem Ordered.override (h : b.Ordered) (c : Bindings α) : (b.override c).Ordered := by
  unfold Bindings.override
  induction c generalizing b with
  | nil => exact h
  | cons e rest ih => exact ih (h.insert e.1 e.2)

/-- A name after all others is bound at the end. -/
theorem insert_of_gt {name : String} {a : α} (h : ∀ e ∈ b, e.1 < name) :
    b.insert name a = b ++ [(name, a)] := by
  induction b with
  | nil => rfl
  | cons e b ih =>
    have hlt := h e List.mem_cons_self
    have hne : (e.1 == name) = false := beq_eq_false_iff_ne.mpr (ne_of_lt hlt)
    have hnot : ¬ name < e.1 := not_lt_of_gt hlt
    simp only [insert, hne, hnot, Bool.false_eq_true, if_false, List.cons_append]
    rw [ih fun d hd => h d (List.mem_cons_of_mem e hd)]

/-- Bindings in order are built again from the first to the last. -/
theorem override_append (h : (b ++ c).Ordered) : b.override c = b ++ c := by
  induction c generalizing b with
  | nil => exact (List.append_nil b).symm
  | cons e c ih =>
    have hlast : b.insert e.1 e.2 = b ++ [e] :=
      insert_of_gt fun d hd => (List.pairwise_append.mp h).2.2 d hd e List.mem_cons_self
    have hsplit : b ++ [e] ++ c = b ++ e :: c := by rw [List.append_assoc, List.singleton_append]
    show (b.insert e.1 e.2).override c = b ++ e :: c
    rw [hlast, ih (by rw [hsplit]; exact h), hsplit]

theorem find?_map {β : Type} (f : α → β) (b : Bindings α) (name : String) :
    Bindings.find? (b.map fun e => (e.1, f e.2)) name = (b.find? name).map f := by
  induction b with
  | nil => rfl
  | cons e b ih =>
    rw [List.map_cons, find?, find?, ih]
    split <;> rfl

/-- A name before all others is not bound. -/
theorem find?_of_lt {name : String} (h : ∀ e ∈ b, name < e.1) : b.find? name = none := by
  rw [find?_eq_none_iff, names, List.mem_map]
  rintro ⟨e, he, rfl⟩
  exact lt_irrefl _ (h e he)

theorem find?_head {e : String × α} : Bindings.find? (e :: b) e.1 = some e.2 := by
  simp [find?]

theorem find?_tail {e : String × α} {name : String} (h : e.1 ≠ name) :
    Bindings.find? (e :: b) name = b.find? name := by
  simp [find?, h]

/-- What is made of the value of every name, or dropped. -/
theorem find?_filterMap {β : Type} (hb : b.Distinct)
    (f : String → α → Option β) (name : String) :
    Bindings.find? (b.filterMap fun e => (f e.1 e.2).map (e.1, ·)) name =
      (b.find? name).bind (f name) := by
  induction b with
  | nil => rfl
  | cons e b ih =>
    obtain ⟨hfirst, hrest⟩ := List.nodup_cons.mp hb
    have hrest := ih hrest
    by_cases hname : e.1 = name
    · subst hname
      rw [find?_head, Option.bind_some]
      rw [find?_eq_none_iff.mpr hfirst, Option.bind_none] at hrest
      cases hf : f e.1 e.2 with
      | none => rw [List.filterMap_cons_none (by rw [hf]; rfl), hrest]
      | some c => rw [List.filterMap_cons_some (by rw [hf]; rfl), find?_head]
    · rw [find?_tail hname]
      cases hf : f e.1 e.2 with
      | none => rw [List.filterMap_cons_none (by rw [hf]; rfl), hrest]
      | some c =>
        rw [List.filterMap_cons_some (b := (e.1, c)) (by rw [hf]; rfl), find?_tail (e := (e.1, c)) hname,
          hrest]

/-- Bindings in order are related where the values of every name are. -/
theorem Rel.of_find? {β : Type} {r : α → β → Prop} {c : Bindings β} (hb : b.Ordered)
    (hc : c.Ordered) (h : ∀ name, Option.Rel r (b.find? name) (c.find? name)) : Rel r b c := by
  induction b generalizing c with
  | nil =>
    cases c with
    | nil => exact .nil
    | cons f c =>
      have hname := h f.1
      rw [find?_head] at hname
      cases hname
  | cons e b ih =>
    obtain ⟨hb, hb'⟩ := List.pairwise_cons.mp hb
    cases c with
    | nil =>
      have hname := h e.1
      rw [find?_head] at hname
      cases hname
    | cons f c =>
      obtain ⟨hc, hc'⟩ := List.pairwise_cons.mp hc
      -- The first names are the same: neither can stand before the other.
      have hfirst : e.1 = f.1 := by
        by_contra hne
        obtain hlt | hlt := lt_or_gt_of_ne hne
        · have hname := h e.1
          rw [find?_head, find?_of_lt] at hname
          · cases hname
          · intro g hg
            obtain rfl | hg := List.mem_cons.mp hg
            · exact hlt
            · exact hlt.trans (hc g hg)
        · have hname := h f.1
          rw [find?_head, find?_of_lt] at hname
          · cases hname
          · intro g hg
            obtain rfl | hg := List.mem_cons.mp hg
            · exact hlt
            · exact hlt.trans (hb g hg)
      have hvalue : r e.2 f.2 := by
        have hname := h e.1
        rw [find?_head, hfirst, find?_head] at hname
        cases hname with
        | some hvalue => exact hvalue
      have hrest : Rel r b c := by
        refine ih hb' hc' fun name => ?_
        by_cases hname : e.1 = name
        · subst hname
          rw [find?_of_lt hb, hfirst, find?_of_lt hc]
          exact .none
        · have hother := h name
          rwa [find?_tail hname, find?_tail (hfirst ▸ hname)] at hother
      obtain ⟨n, a⟩ := e
      obtain ⟨m, a'⟩ := f
      obtain rfl : n = m := hfirst
      exact .cons hvalue hrest

/-- Bindings in order are equal where every name has the same value in both. -/
theorem eq_of_find? (hb : b.Ordered) (hc : c.Ordered) (h : ∀ name, b.find? name = c.find? name) :
    b = c := by
  have hrel : Rel Eq b c := .of_find? hb hc fun name => by
    rw [h name]
    cases c.find? name with
    | none => exact .none
    | some a => exact .some rfl
  clear h hb hc
  induction hrel with
  | nil => rfl
  | cons ha _ ih => rw [ha, ih]

/-- Bindings that take precedence hide what they bind. -/
theorem find?_override_rel {r : Option α → Option α → Prop} (hr : ∀ a, r a a) {d : Bindings α}
    {name : String} (h : d.find? name = none → r (b.find? name) (c.find? name)) :
    r ((b.override d).find? name) ((c.override d).find? name) := by
  unfold Bindings.override
  induction d generalizing b c with
  | nil => exact h rfl
  | cons e rest ih =>
    refine ih fun hrest => ?_
    rw [find?_insert, find?_insert]
    split
    · exact hr _
    · next hne => exact h ((find?_tail hne).trans hrest)

theorem find?_override_congr {d : Bindings α} {name : String}
    (h : d.find? name = none → b.find? name = c.find? name) :
    (b.override d).find? name = (c.override d).find? name :=
  find?_override_rel (fun _ => rfl) h

/-- A name that the bindings with precedence do not have is the one of the others. -/
theorem find?_override_of_none {name : String} (h : c.find? name = none) :
    (b.override c).find? name = b.find? name := by
  unfold Bindings.override
  induction c generalizing b with
  | nil => rfl
  | cons e rest ih =>
    have hne : e.1 ≠ name := by
      rintro rfl
      rw [find?_head] at h
      cases h
    rw [find?_tail hne] at h
    have hrest := ih (b := b.insert e.1 e.2) h
    rw [List.foldl_cons, hrest, find?_insert, if_neg hne]

theorem find?_override {name : String} (hc : c.Distinct) :
    (b.override c).find? name = (c.find? name).or (b.find? name) := by
  unfold Bindings.override
  induction c generalizing b with
  | nil => rfl
  | cons e rest ih =>
    obtain ⟨hfirst, hrest⟩ := List.nodup_cons.mp hc
    have hlater := ih (b := b.insert e.1 e.2) hrest
    rw [List.foldl_cons, hlater, find?_insert]
    by_cases hname : e.1 = name
    · subst hname
      rw [find?_eq_none_iff.mpr hfirst, find?_head, if_pos rfl]
      rfl
    · rw [find?_tail hname, if_neg hname]

end Bindings

end ExprLang
