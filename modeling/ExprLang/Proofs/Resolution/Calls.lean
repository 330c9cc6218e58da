import ExprLang.Proofs.Resolution.Standard

/-! Which method a call selects in the standard chain, where its parameter types are given. A class
that has static members of the name claims the call before the methods of the value are looked at. -/

namespace ExprLang

/-- A computation that ends as another one does, but where that one gives a value and leaves the
last request unclaimed. -/
def Outcome.Stands {α : Type} : Outcome α → Outcome α → Prop
  | .value a u, o => u.context.resolved = true → o = .value a u
  | .fault e u, o => o = .fault e u
  | .exhausted, o => o = .exhausted

namespace Overload

/-- The first method of a name with these parameter types. -/
def pinned? (methods : List Method) (name : String) (ts : List TypeRef) : Option Method :=
  (methods.filter (·.name == name)).find? (·.params == ts)

variable {h : Heap} {owner name : String} {methods : List Method} {ts : List TypeRef}
  {args : List Value} {m : Method}

theorem find_pinned (hm : pinned? methods name ts = some m) :
    find h owner methods name (some ts) args = .ok m := by
  have hne : (methods.filter (·.name == name)).isEmpty = false := by
    rw [List.isEmpty_eq_false_iff]
    exact List.ne_nil_of_mem (List.mem_of_find?_eq_some hm)
  unfold pinned? at hm
  simp only [find, hne, hm]
  rfl

theorem find_unpinned (h : Heap) (owner : String) (args : List Value)
    (hm : pinned? methods name ts = none) :
    ∃ e : Fault, e.kind = .methodNotFound ∧
      find h owner methods name (some ts) args = .error e := by
  unfold pinned? at hm
  cases hne : (methods.filter (·.name == name)).isEmpty with
  | true => exact ⟨.noMember owner name, rfl, by simp only [find, hne]; rfl⟩
  | false =>
    exact ⟨.noOverload (callText h owner name args), rfl, by simp only [find, hne, hm]; rfl⟩

end Overload

namespace Resolution

variable {host : Host} {handle : Handler} {ro : Bool} {α : Type} {q : Request α} {w u : World}
  {base property : Value} {name : String} {ts : List TypeRef} {args : List Value}

/-! ## Who is asked -/

theorem declined_of_ask {rs : List Resolver} (hw : w.context.resolved = false)
    (h : ∀ r ∈ rs, ∃ a, r.ask (answer host handle) q w = .value a w) :
    Declined (answer host handle) q rs w w := by
  induction rs with
  | nil => rfl
  | cons r rs ih =>
    obtain ⟨a, hr⟩ := h r (by simp)
    exact ⟨a, w, hr, hw, ih fun r hr => h r (by simp [hr])⟩

/-- A claim, and then what serves the request. -/
def afterClaim (base property : Value) (x : Action α) : Action α := do
  Action.claim base property
  x

/-- A claim leaves all cells as they are. -/
theorem afterClaim_congr {x y : Action α} (hxy : ∀ v, v.heap = w.heap → x v = y v) :
    afterClaim base property x w = afterClaim base property y w := by
  unfold afterClaim
  cases hclaim : Action.claim base property w with
  | value _ v =>
    obtain ⟨-, rfl⟩ := Action.claim_eq_value.mp hclaim
    rw [Action.bind_value hclaim, Action.bind_value hclaim]
    exact hxy _ rfl
  | fault e v => rw [Action.bind_fault hclaim, Action.bind_fault hclaim]
  | exhausted => rw [Action.bind_exhausted hclaim, Action.bind_exhausted hclaim]

/-- A request that is claimed ends as serving it does, where the claim stands. -/
theorem demand_stands {before after : List Resolver} {r : Resolver} {x : Action α}
    (hchain : w.context.layout.resolvers = before ++ r :: after)
    (hbefore : Declined (answer host handle) q before (w.flagged false) (w.flagged false))
    (hserve : access? host handle w.heap r q = some x) :
    Outcome.Stands (afterClaim q.subject.1 q.subject.2 x (w.flagged false))
      (demand host handle q w) := by
  have hask : r.ask (answer host handle) q (w.flagged false) =
      afterClaim q.subject.1 q.subject.2 x (w.flagged false) := ask_of_access hserve
  have hresolve : resolve host handle q w =
      askAll (answer host handle) (r :: after) q (w.flagged false) := by
    rw [resolve, askChain_apply, hchain, askAll_declined hbefore]
  rw [demand_of_access hserve, ← hask]
  cases hr : r.ask (answer host handle) q (w.flagged false) with
  | fault e v =>
    have hfault := hresolve.trans (by rw [askAll, Action.bind_fault hr])
    exact Action.bind_fault hfault
  | exhausted =>
    have hexhausted := hresolve.trans (by rw [askAll, Action.bind_exhausted hr])
    exact Action.bind_exhausted hexhausted
  | value a v =>
    intro hv
    rw [Action.bind_value (hresolve.trans (askAll_cons_resolved hr hv)),
      Action.bind_value (Action.isResolved_apply v), hv]
    rfl

/-! ## What is selected -/

/-- The methods among which a call of a name looks, and the receiver. -/
def candidates (host : Host) (h : Heap) (base : Value) (name : String) : List Method × Value :=
  let own := (((h.classOf? base).map host.classes.allMethods).getD [], base)
  match base with
  | .cls c =>
    if (staticCandidates host c name).isEmpty then own else (staticCandidates host c name, .null)
  | _ => own

theorem candidates_value (host : Host) (h : Heap) (name : String) (hb : ∀ c, base ≠ .cls c) :
    candidates host h base name =
      (((h.classOf? base).map host.classes.allMethods).getD [], base) := by
  unfold candidates
  split
  · exact absurd rfl (hb _)
  · rfl

/-- All values but the missing one have a class. -/
theorem classOf?_of_ne_null (h : Heap) (hb : base ≠ .null) : ∃ k, h.classOf? base = some k := by
  cases base with
  | null => exact absurd rfl hb
  | _ => exact ⟨_, rfl⟩

/-- The method that a call with these parameter types selects. -/
def selected? (host : Host) (h : Heap) (base : Value) (name : String) (ts : List TypeRef) :
    Option Method :=
  Overload.pinned? (candidates host h base name).1 name ts

theorem statics_leave (handle : Handler) (types : Option (List TypeRef)) (args : List Value)
    (hb : ∀ c, base = .cls c →
      ∃ name, nameOf w.heap property = .ok name ∧ staticCandidates host c name = []) :
    ∃ a, statics host handle (.invoke base property types args) w = .value a w := by
  cases base with
  | cls c =>
    obtain ⟨name, hn, hnone⟩ := hb c rfl
    refine ⟨.null, ?_⟩
    simp only [statics, Action.bind_value (Action.heap_apply w), ofExcept_ok hn, pure_bind,
      ← staticCandidates.eq_1, hnone]
    rfl
  | _ => exact ⟨_, rfl⟩

/-- Calls are left by all resolvers before the one of beans, unless the one of static members takes
them. -/
theorem declined_call {types : Option (List TypeRef)} (hw : w.context.resolved = false)
    (hb : ∀ c, base = .cls c →
      ∃ name, nameOf w.heap property = .ok name ∧ staticCandidates host c name = []) :
    Declined (answer host handle) (.invoke base property types args)
      [.names 0, .group [], .statics, .maps false, .lists false, .arrays false, .records] w w := by
  refine declined_of_ask hw fun r hr => ?_
  have hgroup : (Resolver.group []).ask (answer host handle) (.invoke base property types args) w =
      .value .null w := by
    rw [Resolver.ask, Action.bind_value (Conversion.setResolved_apply false w), askAll,
      show w.flagged false = w by rw [← hw]; rfl]
    rfl
  simp only [List.mem_cons, List.not_mem_nil, or_false] at hr
  rcases hr with rfl | rfl | rfl | rfl | rfl | rfl | rfl
  · exact ⟨_, rfl⟩
  · exact ⟨_, hgroup⟩
  · exact statics_leave handle types args hb
  all_goals exact ⟨_, rfl⟩

/-- A call that is none of static members is one of the methods of the class of its receiver. -/
theorem invoke_own (handle : Handler) (types : Option (List TypeRef)) (args : List Value)
    (hw : w.context.layout = .standard [] ro) {k : ClassId} (hk : w.heap.classOf? base = some k)
    (hn : nameOf w.heap property = .ok name)
    (hstatic : ∀ c, base = .cls c → staticCandidates host c name = []) :
    Outcome.Stands
      (afterClaim base property (callBest host handle (w.heap.lineage.name k)
        (host.classes.allMethods k) name types base args) (w.flagged false))
      (invoke host handle base property types args w) := by
  have hserve : access? host handle w.heap (.beans ro) (.invoke base property types args) =
      some (do
        callBest host handle ((← Action.heap).lineage.name k) (host.classes.allMethods k) name
          types base args) := by
    simp only [access?, beanAccess?, namedTarget?, hk, hn, Option.map_some]
  have hstands := demand_stands (q := .invoke base property types args)
    (congrArg Layout.resolvers hw)
    (declined_call rfl fun c hc => ⟨name, hn, hstatic c hc⟩) hserve
  rwa [afterClaim_congr (y := callBest host handle (w.heap.lineage.name k)
    (host.classes.allMethods k) name types base args) fun v hv => by
      rw [Action.bind_value (Action.heap_apply v), hv]; rfl] at hstands

/-- A class claims the calls of its static members. -/
theorem invoke_static (handle : Handler) (types : Option (List TypeRef)) (args : List Value)
    (hw : w.context.layout = .standard [] ro) (hn : nameOf w.heap property = .ok name) {c : ClassId}
    (hc : (staticCandidates host c name).isEmpty = false) :
    Outcome.Stands
      (afterClaim (.cls c) property (callBest host handle (w.heap.lineage.name c)
        (staticCandidates host c name) name types .null args) (w.flagged false))
      (invoke host handle (.cls c) property types args w) := by
  have hserve : access? host handle w.heap .statics (.invoke (.cls c) property types args) =
      some (callBest host handle (w.heap.lineage.name c) (staticCandidates host c name) name
        types .null args) := by
    simp only [access?, staticAccess?, hn, hc]
    rfl
  have hbefore : Declined (answer host handle) (.invoke (.cls c) property types args)
      [.names 0, .group []] (w.flagged false) (w.flagged false) :=
    declined_of_foreign rfl (by simp [Foreign, Request.subject])
  exact demand_stands (q := .invoke (.cls c) property types args) (congrArg Layout.resolvers hw)
    hbefore hserve

/-- A call on a value is one among its candidates. -/
theorem invoke_candidates (host : Host) (handle : Handler) (types : Option (List TypeRef))
    (args : List Value) (hw : w.context.layout = .standard [] ro) (hb : base ≠ .null)
    (hn : nameOf w.heap property = .ok name) :
    ∃ owner, Outcome.Stands
      (afterClaim base property (callBest host handle owner
        (candidates host w.heap base name).1 name types (candidates host w.heap base name).2 args)
        (w.flagged false))
      (invoke host handle base property types args w) := by
  obtain ⟨k, hk⟩ := classOf?_of_ne_null w.heap hb
  by_cases hcls : ∃ c, base = .cls c
  · obtain ⟨c, rfl⟩ := hcls
    cases hc : (staticCandidates host c name).isEmpty with
    | true =>
      refine ⟨w.heap.lineage.name k, ?_⟩
      simp only [candidates, hc, hk]
      exact invoke_own handle types args hw hk hn (by rintro _ ⟨⟩; exact List.isEmpty_iff.mp hc)
    | false =>
      refine ⟨w.heap.lineage.name c, ?_⟩
      simp only [candidates, hc]
      exact invoke_static handle types args hw hn hc
  · have hvalue (c : ClassId) : base ≠ .cls c := fun hc => hcls ⟨c, hc⟩
    refine ⟨w.heap.lineage.name k, ?_⟩
    rw [candidates_value host w.heap name hvalue, hk]
    exact invoke_own handle types args hw hk hn fun c hc => absurd hc (hvalue c)

/-- A call whose method is given by its parameter types: after the claim the method is called, or the
call fails because there is none. -/
theorem invoke_pinned (host : Host) (handle : Handler) (ts : List TypeRef) (args : List Value)
    (hw : w.context.layout = .standard [] ro) (hb : base ≠ .null)
    (hn : nameOf w.heap property = .ok name) :
    match selected? host w.heap base name ts with
    | some m => Outcome.Stands
        (afterClaim base property (m.invoke host handle (candidates host w.heap base name).2 args)
          (w.flagged false))
        (invoke host handle base property (some ts) args w)
    | none => ∃ e : Fault, e.kind = .methodNotFound ∧
        invoke host handle base property (some ts) args w =
          afterClaim base property (Action.fail e) (w.flagged false) := by
  obtain ⟨owner, hstands⟩ := invoke_candidates host handle (some ts) args hw hb hn
  cases hm : selected? host w.heap base name ts with
  | some m =>
    dsimp only
    rwa [afterClaim_congr (y := m.invoke host handle (candidates host w.heap base name).2 args)
      fun v hv => by
        rw [callBest, Action.bind_value (Action.heap_apply v),
          ofExcept_ok (Overload.find_pinned hm)]
        rfl] at hstands
  | none =>
    obtain ⟨e, he, hfind⟩ := Overload.find_unpinned w.heap owner args hm
    refine ⟨e, he, ?_⟩
    rw [afterClaim_congr (y := Action.fail e) fun v hv => by
      have hheap : v.heap = w.heap := hv
      rw [callBest, Action.bind_value (Action.heap_apply v), hheap, hfind]
      rfl] at hstands
    generalize hx : afterClaim base property (Action.fail e) (w.flagged false) = x at hstands
    cases x with
    | value a u =>
      obtain ⟨_, _, -, hfail⟩ := Action.bind_eq_value.mp hx
      cases hfail
    | fault | exhausted => exact hstands

/-- A call without a name fails like the search for it. -/
theorem invoke_nameless (hw : w.context.layout = .standard [] ro) (hb : base ≠ .null) {e : Fault}
    (hn : nameOf w.heap property = .error e) (types : Option (List TypeRef)) :
    invoke host handle base property types args w = .fault e (w.flagged false) := by
  have hask : ∃ before r after, (Layout.standard [] ro).resolvers = before ++ r :: after ∧
      Declined (answer host handle) (.invoke base property types args) before (w.flagged false)
        (w.flagged false) ∧
      r.ask (answer host handle) (.invoke base property types args) (w.flagged false) =
        .fault e (w.flagged false) := by
    have hname : (Action.ofExcept (nameOf (w.flagged false).heap property)) (w.flagged false) =
        .fault e (w.flagged false) := by
      rw [World.flagged_heap, hn]
      rfl
    have hbeans (hstatics : ∀ c, base ≠ .cls c) :
        beans host handle ro (.invoke base property types args) (w.flagged false) =
          .fault e (w.flagged false) := by
      rw [beans, beansBy]
      refine Action.bind_fault ?_
      obtain ⟨k, hk⟩ := classOf?_of_ne_null (w.flagged false).heap hb
      rw [target?, Action.bind_value (Action.heap_apply _)]
      simp only [hk]
      exact Action.bind_fault hname
    by_cases hcls : ∃ c, base = .cls c
    · obtain ⟨c, rfl⟩ := hcls
      refine ⟨[.names 0, .group []], .statics, _, rfl,
        declined_of_foreign rfl (by simp [Foreign, Request.subject]), ?_⟩
      show statics host handle (.invoke (.cls c) property types args) (w.flagged false) = _
      rw [statics, Action.bind_value (Action.heap_apply _)]
      exact Action.bind_fault hname
    · have hvalue (c : ClassId) : base ≠ .cls c := fun hc => hcls ⟨c, hc⟩
      exact ⟨_, .beans ro, [], rfl, declined_call rfl fun c hc => absurd hc (hvalue c),
        hbeans hvalue⟩
  obtain ⟨before, r, after, hsplit, hdeclined, hr⟩ := hask
  have hresolve : resolve host handle (.invoke base property types args) w =
      .fault e (w.flagged false) := by
    rw [resolve, askChain_apply, hw, hsplit, askAll_declined hdeclined, askAll]
    exact Action.bind_fault hr
  exact Action.bind_fault hresolve

end Resolution

end ExprLang
