import ExprLang.Evaluation.BeanResolver
import ExprLang.Proofs.Factory
import ExprLang.Shell.Session

/-! What is kept makes no difference. Whatever was asked, reclaimed or given up before, a factory reads
a text as the parser does, a resolver finds the properties that a class has, and a session evaluates a
line as if no tree were kept. -/

namespace ExprLang

namespace Cache

variable {κ α : Type} [DecidableEq κ] {c : Cache κ α} {p : κ → α → Prop}

theorem Holds.reclaim (h : c.Holds p) (k : κ) : (c.reclaim k).Holds p := by
  unfold Cache.reclaim
  split <;> exact h

omit [DecidableEq κ] in
theorem Holds.reclaimAll (h : c.Holds p) : c.reclaimAll.Holds p := h

end Cache

/-! ## Factories -/

namespace Factory

variable {f g : Factory}

/-- What can happen to a factory. -/
inductive Use where
  | parse (text : String)
  | reclaim (text : String)
  | reclaimAll
  | length

/-- The factory after a use, be it successful or not. -/
def after (f : Factory) : Use → Factory
  | .parse text => (Factory.parse text f).2
  | .reclaim text => f.reclaim text
  | .reclaimAll => f.reclaimAll
  | .length => f.length.2

theorem Reached.after (hf : f.Reached) (use : Use) : (f.after use).Reached := by
  cases use with
  | parse text => exact hf.parse text
  | reclaim text => exact hf.reclaim text
  | reclaimAll => exact hf.reclaimAll
  | length => exact hf.length

theorem Reached.afterAll (hf : f.Reached) (uses : List Use) : (uses.foldl Factory.after f).Reached := by
  induction uses generalizing f with
  | nil => exact hf
  | cons use uses ih => exact ih (hf.after use)

/-- What is built from a tree alone depends on nothing else that is kept. -/
theorem parse_bind_congr {β : Type} {build : Node → Building β} {text : String}
    (hbuild : ∀ n f g, (build n f).1 = (build n g).1)
    (h : (Factory.parse text f).1 = (Factory.parse text g).1) :
    ((Factory.parse text >>= build) f).1 = ((Factory.parse text >>= build) g).1 := by
  simp only [bind, ExceptT.bind, ExceptT.mk, StateT.bind, ExceptT.bindCont]
  generalize Factory.parse text f = r, Factory.parse text g = s at h ⊢
  obtain ⟨r, f'⟩ := r
  obtain ⟨s, g'⟩ := s
  cases (h : r = s)
  cases r with
  | error e => rfl
  | ok n => exact hbuild n f' g'

theorem valueExpression_congr {text : String}
    (h : (Factory.parse text f).1 = (Factory.parse text g).1) (t : ClassTable) (c : Context)
    (expected : Option TypeRef) :
    (valueExpression t c text expected f).1 = (valueExpression t c text expected g).1 := by
  refine parse_bind_congr (fun n f g => ?_) h
  simp only [bind, ExceptT.bind, ExceptT.mk, StateT.bind, ExceptT.bindCont, Factory.ofExcept]
  cases Bound.capture t c.bound n <;> rfl

theorem methodExpression_congr {text : String}
    (h : (Factory.parse text f).1 = (Factory.parse text g).1) (t : ClassTable) (c : Context)
    (returns : Option TypeRef) (params : Option (List TypeRef)) :
    (methodExpression t c text returns params f).1 =
      (methodExpression t c text returns params g).1 := by
  refine parse_bind_congr (fun n f g => ?_) h
  split
  · rfl
  · split
    · simp only [bind, ExceptT.bind, ExceptT.mk, StateT.bind, ExceptT.bindCont, Factory.ofExcept]
      cases Bound.capture t c.bound n <;> rfl
    · rfl

end Factory

/-! ## Resolvers of beans -/

namespace BeanResolver

variable {t : ClassTable} {r : BeanResolver}

/-- What can happen to a resolver of beans. -/
inductive Use : Type 1 where
  | request {α : Type} (h : Heap) (q : Request α)
  | properties (c : ClassId)
  | reclaim (c : ClassId)
  | reclaimAll
  | length

/-- The resolver after a use. -/
def after (t : ClassTable) (r : BeanResolver) : Use → BeanResolver
  | .request h q => r.asked t h q
  | .properties c => (r.properties t c).2
  | .reclaim c => .reclaim c r
  | .reclaimAll => r.reclaimAll
  | .length => r.length.2

/-- What is kept for a class are its properties. -/
def Sound (t : ClassTable) (r : BeanResolver) : Prop :=
  r.classes.Holds fun c p => p = .ofClass t c

theorem Sound.properties (hr : r.Sound t) (c : ClassId) :
    (r.properties t c).1 = .ofClass t c ∧ (r.properties t c).2.Sound t := by
  unfold BeanResolver.properties Cache.get
  cases hf : r.classes.drain.find? c with
  | some p => exact ⟨hr.drain.find? hf, hr.drain⟩
  | none => exact hr.drain.putIfAbsent rfl

theorem Sound.asked (hr : r.Sound t) (h : Heap) {α : Type} (q : Request α) :
    (r.asked t h q).Sound t := by
  unfold BeanResolver.asked
  split
  · exact (hr.properties _).2
  · exact hr

theorem Sound.after (hr : r.Sound t) (use : Use) : (r.after t use).Sound t := by
  cases use with
  | request h q => exact hr.asked h q
  | properties c => exact (hr.properties c).2
  | reclaim c => exact Cache.Holds.reclaim hr c
  | reclaimAll => exact Cache.Holds.reclaimAll hr
  | length => exact Cache.Holds.drain hr

theorem Sound.afterAll (hr : r.Sound t) (uses : List Use) :
    (uses.foldl (BeanResolver.after t) r).Sound t := by
  induction uses generalizing r with
  | nil => exact hr
  | cons use uses ih => exact ih (hr.after use)

theorem readOnly_properties (c : ClassId) : (r.properties t c).2.readOnly = r.readOnly := by
  unfold BeanResolver.properties
  split <;> rfl

theorem readOnly_after (use : Use) : (r.after t use).readOnly = r.readOnly := by
  cases use with
  | request h q =>
    simp only [after, asked]
    split
    · exact readOnly_properties _
    · rfl
  | properties c => exact readOnly_properties c
  | reclaim | reclaimAll | length => rfl

theorem readOnly_afterAll (uses : List Use) :
    (uses.foldl (BeanResolver.after t) r).readOnly = r.readOnly := by
  induction uses generalizing r with
  | nil => rfl
  | cons use uses ih => exact ih.trans (readOnly_after use)

/-- A request is answered as if the properties were worked out for it. -/
theorem Sound.answer_eq {host : Host} (hr : r.Sound host.classes) (handle : Handler) {α : Type}
    (q : Request α) (w : World) :
    (r.answer host handle q w).1 = Resolution.beans host handle r.readOnly q w := by
  have hfind : (fun c => (r.properties host.classes c).1) = BeanProperties.ofClass host.classes :=
    funext fun c => (hr.properties c).1
  rw [BeanResolver.answer, hfind]
  rfl

end BeanResolver

/-! ## Sessions -/

namespace Session

/-- What is entered: a line, or the order to drop the trees that are kept. -/
inductive Entry where
  | line (text : String)
  | reclaim

/-- The line of an entry that is one. -/
def Entry.line? : Entry → Option String
  | line text => some text
  | reclaim => none

/-- The outcomes of the lines that are entered one after the other. -/
def outcomes (s : Session) : List Entry → List (Outcome Value)
  | [] => []
  | .line text :: rest => (s.evalLine text).1 :: outcomes (s.evalLine text).2 rest
  | .reclaim :: rest => outcomes s.reclaim rest

variable {f g : Factory}

/-- A template ends alike in the same world, whatever trees are kept. -/
theorem evalTemplate_spec (hf : f.Reached) (hg : g.Reached) (w : World) (text : String) :
    ∃ r v f' g', evalTemplate ⟨f, w⟩ text = (r, ⟨f', v⟩) ∧
      evalTemplate ⟨g, w⟩ text = (r, ⟨g', v⟩) ∧ f'.Reached ∧ g'.Reached := by
  have hparse := (hf.parse_eq text).trans (hg.parse_eq text).symm
  have hbuilt := Factory.valueExpression_congr hparse host.classes w.context none
  have hf' := hf.valueExpression host.classes w.context text none
  have hg' := hg.valueExpression host.classes w.context text none
  simp only [evalTemplate, ExceptT.run]
  generalize Factory.valueExpression host.classes w.context text none f = built,
    Factory.valueExpression host.classes w.context text none g = rebuilt at hbuilt hf' hg' ⊢
  obtain ⟨built, f'⟩ := built
  obtain ⟨rebuilt, g'⟩ := rebuilt
  cases (hbuilt : built = rebuilt)
  cases built with
  | error e => exact ⟨_, _, f', g', rfl, rfl, hf', hg'⟩
  | ok e =>
    dsimp only
    cases e.read host (Evaluation.evaluator host) w with
    | value v w' => exact ⟨_, _, f', g', rfl, rfl, hf', hg'⟩
    | fault e w' => exact ⟨_, _, f', g', rfl, rfl, hf', hg'⟩
    | exhausted => exact ⟨_, _, f', g', rfl, rfl, hf', hg'⟩

theorem outcomes_eq (hf : f.Reached) (hg : g.Reached) (w : World) (entries : List Entry) :
    outcomes ⟨f, w⟩ entries = outcomes ⟨g, w⟩ ((entries.filterMap Entry.line?).map .line) := by
  induction entries generalizing f g w with
  | nil => rfl
  | cons entry rest ih =>
    cases entry with
    | line text =>
      obtain ⟨r, v, f', g', hleft, hright, hf', hg'⟩ := evalTemplate_spec hf hg w (template text)
      simp only [outcomes, Entry.line?, List.filterMap_cons, List.map_cons, evalLine, hleft, hright]
      rw [ih hf' hg' v]
    | reclaim => exact ih hf.reclaimAll hg w

end Session

/-- Caches are transparent. After any uses, a factory of any capacity gives the tree or the error of
the parser, and builds the expressions that a factory builds which keeps nothing; a resolver of beans
finds the properties that are worked out from the class, and answers like one that works them out
each time. The lines of a session have the outcomes that they have where nothing is ever kept. -/
theorem kept_unnoticed (capacity : Nat) (uses : List Factory.Use) (host : Host)
    (beanCapacity : Nat) (readOnly : Bool) (beanUses : List BeanResolver.Use) :
    let f := uses.foldl Factory.after (.ofCapacity capacity)
    let nothing := Factory.ofCapacity 0
    let r := beanUses.foldl (BeanResolver.after host.classes) (.ofCapacity readOnly beanCapacity)
    (∀ text, (Factory.parse text f).1 = (parseTemplate text).mapError Fault.parse) ∧
      (∀ t c text expected, (Factory.valueExpression t c text expected f).1 =
        (Factory.valueExpression t c text expected nothing).1) ∧
      (∀ t c text returns params, (Factory.methodExpression t c text returns params f).1 =
        (Factory.methodExpression t c text returns params nothing).1) ∧
      (∀ c, (r.properties host.classes c).1 = .ofClass host.classes c) ∧
      (∀ (handle : Handler) {α : Type} (q : Request α) (w : World),
        (r.answer host handle q w).1 = Resolution.beans host handle readOnly q w) ∧
      ∀ (w : World) (entries : List Session.Entry), Session.outcomes ⟨f, w⟩ entries =
        Session.outcomes ⟨nothing, w⟩ ((entries.filterMap Session.Entry.line?).map .line) := by
  intro f nothing r
  have hf : f.Reached := (Factory.Reached.start capacity).afterAll uses
  have hnothing : nothing.Reached := .start 0
  have hparse (text : String) : (Factory.parse text f).1 = (Factory.parse text nothing).1 :=
    (hf.parse_eq text).trans (hnothing.parse_eq text).symm
  have hr : r.Sound host.classes := BeanResolver.Sound.afterAll (r := .ofCapacity _ _) nofun beanUses
  refine ⟨hf.parse_eq, fun t c text => Factory.valueExpression_congr (hparse text) t c,
    fun t c text => Factory.methodExpression_congr (hparse text) t c,
    fun c => (hr.properties c).1, fun handle _ q w => ?_, Session.outcomes_eq hf hnothing⟩
  rw [hr.answer_eq handle q w, BeanResolver.readOnly_afterAll]
  rfl

end ExprLang
