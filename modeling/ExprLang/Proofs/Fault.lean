import ExprLang.Fault

/-! Failures of the host's code as faults: what a chain of sources is turned into, and that it stays
what it is when calls inside calls wrap it and turn it into a fault again. -/

namespace ExprLang

/-! ## The root of a chain -/

theorem Fault.rootFailure_of_source {g : Fault} (h : g.source? = none) :
    g.rootFailure = .fault g := by
  cases g with
  | raised f => simp [Fault.source?] at h
  | _ => rfl

theorem Fault.eq_raised_of_source {g : Fault} {e : Failure} (h : g.source? = some e) :
    g = .raised e := by
  cases g with
  | raised f => rw [Option.some.inj h]
  | _ => simp [Fault.source?] at h

/-- A chain ends in a plain failure or in a fault that has no source. -/
theorem Failure.root_cases (f : Failure) :
    (∃ t, f.root = .plain t ∧ f.rootText = t) ∨
      ∃ g : Fault, g.source? = none ∧ f.root = .fault g ∧ f.rootText = g.message := by
  match f with
  | .plain t => exact .inl ⟨t, rfl, rfl⟩
  | .wrapped _ s => exact s.root_cases
  | .fault g =>
    cases hg : g.source? with
    | none => exact .inr ⟨g, hg, g.rootFailure_of_source hg, rfl⟩
    | some e =>
      have he := g.eq_raised_of_source hg
      have hlt : sizeOf e < sizeOf g := by simp [he]
      rw [he]
      exact e.root_cases
termination_by sizeOf f
decreasing_by
  · rw [Failure.wrapped.sizeOf_spec]
    omega
  · rw [Failure.fault.sizeOf_spec]
    omega

theorem Failure.rootText_of_root {f : Failure} {t : String} (h : f.root = .plain t) :
    f.rootText = t := by
  rcases f.root_cases with ⟨u, hu, ht⟩ | ⟨g, _, hg, _⟩
  · rw [h] at hu
    cases hu
    exact ht
  · rw [h] at hg
    cases hg

/-! ## Faults as they come up -/

mutual

/-- A fault that the language or the host made itself, or that a failure was turned into. -/
inductive Fault.Built : Fault → Prop where
  | made {f : Fault} (h : f.source? = none) : Fault.Built f
  | turned {e : Failure} (h : Failure.Built e) : Fault.Built e.toFault

/-- A chain of failures whose faults are all built. -/
inductive Failure.Built : Failure → Prop where
  | plain (text : String) : Failure.Built (.plain text)
  | wrapped (text : String) {source : Failure} (h : Failure.Built source) :
      Failure.Built (.wrapped text source)
  | fault {f : Fault} (h : Fault.Built f) : Failure.Built (.fault f)

end

/-- The failure behind a fault, if there is one, ends in no other fault. -/
def Fault.Settled (f : Fault) : Prop :=
  ∀ e, f.source? = some e → ∃ t, e.root = .plain t

theorem Fault.settled_of_source {f : Fault} (h : f.source? = none) : f.Settled := by
  intro e he
  rw [h] at he
  cases he

/-- Turning a failure into a fault settles it, provided that a fault at the top is settled. -/
theorem Failure.settled_toFault {f : Failure} (h : ∀ g, f = .fault g → g.Settled) :
    f.toFault.Settled := by
  cases f with
  | fault g => exact h g rfl
  | plain t =>
    intro e he
    cases he
    exact ⟨t, by simp only [Failure.root]⟩
  | wrapped text s =>
    intro e he
    rcases (Failure.wrapped text s).root_cases with ⟨t, ht, _⟩ | ⟨g, hg, hroot, _⟩
    · simp only [Failure.toFault, ht, Fault.source?] at he
      cases he
      exact ⟨t, ht⟩
    · simp only [Failure.toFault, hroot, hg] at he
      cases he

mutual

theorem Fault.Built.settled : ∀ {f : Fault}, f.Built → f.Settled
  | _, .made hf => Fault.settled_of_source hf
  | _, .turned he => Failure.settled_toFault (Failure.Built.settled he)

theorem Failure.Built.settled : ∀ {f : Failure}, f.Built → ∀ g, f = .fault g → g.Settled
  | _, .plain _, _, h => Failure.noConfusion h
  | _, .wrapped _ _, _, h => Failure.noConfusion h
  | _, .fault hf, _, rfl => Fault.Built.settled hf

end

/-! ## What a chain is turned into -/

namespace Failure

variable {f e : Failure} {g : Fault} {t : String}

theorem toFault_of_root_fault (h : f.Built) (hg : f.root = .fault g) : f.toFault = g := by
  cases f with
  | plain t => cases hg
  | wrapped text s => simp only [toFault, hg]
  | fault k =>
    cases hk : k.source? with
    | none =>
      have hroot : k.rootFailure = .fault g := hg
      rw [k.rootFailure_of_source hk] at hroot
      exact fault.inj hroot
    | some e =>
      -- the root of a fault that stems from a failure is the root of that failure
      obtain ⟨t, ht⟩ := h.settled k rfl e hk
      obtain rfl := k.eq_raised_of_source hk
      have hroot : e.root = .fault g := hg
      rw [ht] at hroot
      cases hroot

theorem toFault_of_root_plain (ht : f.root = .plain t) :
    ∃ e, f.toFault = .raised e ∧ e.root = .plain t := by
  cases f with
  | plain u => exact ⟨.plain u, rfl, ht⟩
  | wrapped text s => exact ⟨.wrapped text s, by simp only [toFault, ht], ht⟩
  | fault k =>
    have hroot : k.rootFailure = .plain t := ht
    cases hk : k.source? with
    | none =>
      rw [k.rootFailure_of_source hk] at hroot
      cases hroot
    | some e =>
      obtain rfl := k.eq_raised_of_source hk
      exact ⟨e, rfl, hroot⟩

theorem root_wraps (texts : List String) (f : Failure) : (texts.foldr wrapped f).root = f.root := by
  induction texts with
  | nil => rfl
  | cons t ts ih => exact ih

theorem Built.wraps (h : f.Built) (texts : List String) : (texts.foldr Failure.wrapped f).Built := by
  induction texts with
  | nil => exact h
  | cons t ts ih => exact .wrapped t ih

end Failure

/-! ## Calls inside calls -/

namespace Fault

variable {f g k : Fault} {e e' : Failure} {t : String}

/-- Two faults are reported alike: their kind, message, place and root cause are the same. -/
structure Alike (f g : Fault) : Prop where
  kind : f.kind = g.kind
  message : f.message = g.message
  span : f.span? = g.span?
  rootCause : f.rootCause? = g.rootCause?

theorem Alike.refl (f : Fault) : f.Alike f := ⟨rfl, rfl, rfl, rfl⟩

theorem Alike.trans (h : f.Alike g) (h' : g.Alike k) : f.Alike k :=
  ⟨h.kind.trans h'.kind, h.message.trans h'.message, h.span.trans h'.span,
    h.rootCause.trans h'.rootCause⟩

theorem Alike.text (h : f.Alike g) : f.text = g.text := by
  rw [Fault.text, Fault.text, h.kind, h.message, h.span]

theorem rootCause_raised (h : e.root = .plain t) : (raised e).rootCause? = some (.plain t) :=
  congrArg some h

theorem message_raised (h : e.root = .plain t) : (raised e).message = t :=
  e.rootText_of_root h

/-- Of a fault that stems from a failure only the root of that failure is reported. -/
theorem alike_raised (h : e.root = .plain t) (h' : e'.root = .plain t) :
    (raised e).Alike (raised e') where
  kind := rfl
  message := by rw [message_raised h, message_raised h']
  span := rfl
  rootCause := by rw [rootCause_raised h, rootCause_raised h']

/-- What comes out of a call whose code wraps a fault in failures with these texts, the outermost
one first. -/
def rewrapped (g : Fault) (texts : List String) : Fault :=
  (texts.foldr Failure.wrapped (.fault g)).toFault

theorem Built.rewrapped (h : g.Built) (texts : List String) : (g.rewrapped texts).Built :=
  .turned ((Failure.Built.fault h).wraps texts)

theorem Built.rewrapped_alike (h : g.Built) (texts : List String) :
    (g.rewrapped texts).Alike g := by
  have hbuilt := (Failure.Built.fault h).wraps texts
  have hroot : (texts.foldr Failure.wrapped (.fault g)).root = g.rootFailure :=
    Failure.root_wraps texts (.fault g)
  cases hg : g.source? with
  | none =>
    rw [g.rootFailure_of_source hg] at hroot
    have hsame : g.rewrapped texts = g := Failure.toFault_of_root_fault hbuilt hroot
    rw [hsame]
    exact .refl g
  | some e =>
    obtain ⟨t, ht⟩ := h.settled e hg
    obtain rfl := g.eq_raised_of_source hg
    obtain ⟨e', he', ht'⟩ := Failure.toFault_of_root_plain (hroot.trans ht)
    have hsame : (raised e).rewrapped texts = raised e' := he'
    rw [hsame]
    exact alike_raised ht' ht

/-- What a fault has become behind calls inside calls, each with the texts in which its code wraps
what the call inside gave, the innermost call first. -/
def through (g : Fault) (calls : List (List String)) : Fault :=
  calls.foldl rewrapped g

/-- Calls inside calls leave the report of a fault as it is. -/
theorem Built.through_alike (h : g.Built) (calls : List (List String)) :
    (g.through calls).Alike g := by
  induction calls generalizing g with
  | nil => exact .refl g
  | cons texts calls ih =>
    have hcalls : ((g.rewrapped texts).through calls).Alike (g.rewrapped texts) :=
      ih (h.rewrapped texts)
    exact hcalls.trans (h.rewrapped_alike texts)

end Fault

end ExprLang
