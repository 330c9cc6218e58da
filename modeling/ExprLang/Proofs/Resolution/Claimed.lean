import ExprLang.Evaluation.Step
import ExprLang.Proofs.Action
import ExprLang.Proofs.Lineage.Subclassing

/-! What becomes of a request that a resolver of objects claims and serves. The flag that says so is
one for all requests, and serving one request may make others. -/

namespace ExprLang

/-- The world with the flag of the last request set or clear. -/
def World.flagged (w : World) (b : Bool) : World :=
  { w with context := { w.context with resolved := b } }

@[simp] theorem World.flagged_resolved (w : World) (b : Bool) :
    (w.flagged b).context.resolved = b := rfl

@[simp] theorem World.flagged_heap (w : World) (b : Bool) : (w.flagged b).heap = w.heap := rfl

/-- What a request is about: a base, and a property or a method of it. -/
def Request.subject : {α : Type} → Request α → Value × Value
  | _, get base property => (base, property)
  | _, type base property => (base, property)
  | _, set base property _ => (base, property)
  | _, readOnly base property => (base, property)
  | _, invoke base method _ _ => (base, method)
  | _, convert v _ => (v, .null)

/-- These resolvers are asked in turn, none claims the request, and `v` is where that leads. -/
def Declined (answer : Answerer) {α : Type} (q : Request α) :
    List Resolver → World → World → Prop
  | [], w, v => v = w
  | r :: rs, w, v =>
    ∃ a u, r.ask answer q w = .value a u ∧ u.context.resolved = false ∧ Declined answer q rs u v

section Chain
variable {answer : Answerer} {α : Type} {q : Request α} {w v : World}

theorem askAll_cons_resolved {r : Resolver} {rs : List Resolver} {a : α}
    (hr : r.ask answer q w = .value a v) (hv : v.context.resolved = true) :
    askAll answer (r :: rs) q w = .value a v := by
  rw [askAll, Action.bind_value hr, Action.bind_value (Action.isResolved_apply v), hv]
  rfl

theorem askAll_cons_declined {r : Resolver} {rs : List Resolver} {a : α}
    (hr : r.ask answer q w = .value a v) (hv : v.context.resolved = false) :
    askAll answer (r :: rs) q w = askAll answer rs q v := by
  rw [askAll, Action.bind_value hr, Action.bind_value (Action.isResolved_apply v), hv]
  rfl

theorem askAll_declined {rs : List Resolver} (h : Declined answer q rs w v)
    (after : List Resolver) : askAll answer (rs ++ after) q w = askAll answer after q v := by
  induction rs generalizing w with
  | nil => rw [show v = w from h]; rfl
  | cons r rs ih =>
    obtain ⟨a, u, hr, hu, hrest⟩ := h
    rw [List.cons_append, askAll_cons_declined hr hu]
    exact ih hrest

theorem askChain_apply (answer : Answerer) (q : Request α) (w : World) :
    askChain answer q w = askAll answer w.context.layout.resolvers q (w.flagged false) := by
  rw [askChain, Action.bind_value (Action.context_apply w), Resolver.ask]
  rfl

end Chain

namespace Resolution

variable (host : Host) (handle : Handler)

/-! ## Serving a claimed request -/

/-- The methods that a call of a static name may mean. -/
def staticCandidates (c : ClassId) (name : String) : List Method :=
  if name == constructorName then (host.classes.members c).constructors
  else (host.classes.allMethods c).filter fun m => m.isStatic && m.name == name

/-- How the resolver of static members serves a request that it claims. -/
def staticAccess? (h : Heap) : {α : Type} → Request α → Option (Action α)
  | _, .get (.cls c) property =>
    match nameOf h property with
    | .error _ => none
    | .ok name =>
      if name == "class" then some (pure (.cls c))
      else ((host.classes.members c).field? name).map fun f => pure f.value
  | _, .set (.cls c) property _ =>
    match nameOf h property with
    | .error _ => none
    | .ok name =>
      if ((host.classes.members c).field? name).isSome then
        some (Action.fail (.fixedField (h.lineage.simpleName c) name))
      else none
  | _, .invoke (.cls c) method types args =>
    match nameOf h method with
    | .error _ => none
    | .ok name =>
      if (staticCandidates host c name).isEmpty then none
      else
        some (callBest host handle (h.lineage.name c) (staticCandidates host c name) name types
          .null args)
  | _, _ => none

/-- Reads a component of a record. -/
def readComponent (h : Heap) (c : ClassId) (base property : Value) : Action Value := do
  let name ← Action.ofExcept (nameOf h property)
  let reader := (host.classes.allMethods c).find? fun m =>
    m.name == name && m.params.isEmpty && !m.isStatic
  match (host.classes.members c).component? name, reader with
  | some _, some m => m.run host handle base []
  | _, _ => Action.fail (.noComponent (h.lineage.simpleName c) name)

/-- How the resolver of records serves a request that it claims. -/
def recordAccess? (h : Heap) : {α : Type} → Request α → Option (Action α)
  | _, .get base property =>
    (recordClass? h base).map fun c => readComponent host handle h c base property
  | _, .set base property _ =>
    (recordClass? h base).map fun c => do
      let name ← Action.ofExcept (nameOf h property)
      let record := h.lineage.simpleName c
      if ((host.classes.members c).component? name).isSome then
        Action.fail (.fixedComponent record name)
      else Action.fail (.noComponent record name)
  | _, _ => none

/-- Reads a property through the method for it. -/
def readProperty (c : ClassId) (name : String) (base : Value) : Action Value := do
  let h ← Action.heap
  let p ← Action.ofExcept (property h (.ofClass host.classes c) name)
  match p.reader with
  | some m => m.run host handle base []
  | none => Action.fail (.unreadable name (h.lineage.name c))

/-- Writes a property through the method for it. -/
def writeProperty (readOnly : Bool) (c : ClassId) (name : String) (base value : Value) :
    Action Unit :=
  if readOnly then Action.fail (.fixedBean name)
  else do
    let h ← Action.heap
    let p ← Action.ofExcept (property h (.ofClass host.classes c) name)
    match p.writer with
    | some m =>
      let _ ← m.invoke host handle base [value]
      pure ()
    | none => Action.fail (.unwritable name (h.lineage.name c))

/-- The class of the subject of a request, and the name of the property or method. -/
def namedTarget? (h : Heap) (base property : Value) : Option (ClassId × String) :=
  match h.classOf? base, nameOf h property with
  | some c, .ok name => some (c, name)
  | _, _ => none

/-- How the resolver of beans serves a request that it claims. -/
def beanAccess? (readOnly : Bool) (h : Heap) : {α : Type} → Request α → Option (Action α)
  | _, .get base property =>
    (namedTarget? h base property).map fun (c, name) => readProperty host handle c name base
  | _, .set base property value =>
    (namedTarget? h base property).map fun (c, name) =>
      writeProperty host handle readOnly c name base value
  | _, .invoke base method types args =>
    (namedTarget? h base method).map fun (c, name) => do
      callBest host handle ((← Action.heap).lineage.name c) (host.classes.allMethods c) name types
        base args
  | _, _ => none

/-- How a resolver of objects serves a read, a write or a call that it claims; nothing where it
does not claim it. -/
def access? (h : Heap) {α : Type} (r : Resolver) (q : Request α) : Option (Action α) :=
  match r with
  | .statics => staticAccess? host handle h q
  | .records => recordAccess? host handle h q
  | .beans readOnly => beanAccess? host handle readOnly h q
  | _ => none

variable {host handle} {α : Type} {q : Request α} {x : Action α} {w : World}

theorem ofExcept_ok {r : Except Fault α} {a : α} (h : r = .ok a) :
    Action.ofExcept r = (pure a : Action α) := by
  subst h
  rfl

theorem statics_of_access (h : staticAccess? host handle w.heap q = some x) :
    statics host handle q w = (do Action.claim q.subject.1 q.subject.2; x) w := by
  cases q with
  | get base property =>
    cases base with
    | cls c =>
      simp only [staticAccess?] at h
      cases hn : nameOf w.heap property with
      | error e => simp [hn] at h
      | ok name =>
        simp only [hn] at h
        simp only [statics, Request.subject, Action.bind_value (Action.heap_apply w),
          ofExcept_ok hn, pure_bind]
        split at h
        · next hc =>
          cases h
          simp [hc]
        · next hc =>
          cases hf : (host.classes.members c).field? name with
          | none => simp [hf] at h
          | some f =>
            simp only [hf, Option.map_some, Option.some.injEq] at h
            subst h
            simp [hc]
    | _ => simp [staticAccess?] at h
  | set base property value =>
    cases base with
    | cls c =>
      simp only [staticAccess?] at h
      cases hn : nameOf w.heap property with
      | error e => simp [hn] at h
      | ok name =>
        simp only [hn] at h
        simp only [statics, Request.subject, Action.bind_value (Action.heap_apply w),
          ofExcept_ok hn, pure_bind]
        split at h
        · next hf =>
          cases h
          simp [hf]
        · cases h
    | _ => simp [staticAccess?] at h
  | invoke base method types args =>
    cases base with
    | cls c =>
      simp only [staticAccess?] at h
      cases hn : nameOf w.heap method with
      | error e => simp [hn] at h
      | ok name =>
        simp only [hn] at h
        simp only [statics, Request.subject, Action.bind_value (Action.heap_apply w),
          ofExcept_ok hn, pure_bind, ← staticCandidates.eq_1]
        split at h
        · cases h
        · next he =>
          cases h
          simp only [he]
          rfl
    | _ => simp [staticAccess?] at h
  | _ => simp [staticAccess?] at h

theorem records_of_access (h : recordAccess? host handle w.heap q = some x) :
    records host handle q w = (do Action.claim q.subject.1 q.subject.2; x) w := by
  cases q with
  | get base property =>
    simp only [recordAccess?] at h
    cases hc : recordClass? w.heap base with
    | none => simp [hc] at h
    | some c =>
      simp only [hc, Option.map_some, Option.some.injEq] at h
      subst h
      simp only [records, Action.bind_value (Action.heap_apply w), hc]
      rfl
  | set base property value =>
    simp only [recordAccess?] at h
    cases hc : recordClass? w.heap base with
    | none => simp [hc] at h
    | some c =>
      simp only [hc, Option.map_some, Option.some.injEq] at h
      subst h
      simp only [records, Action.bind_value (Action.heap_apply w), hc]
      rfl
  | _ => simp [recordAccess?] at h

theorem target?_named {base property : Value} {c : ClassId} {name : String}
    (h : namedTarget? w.heap base property = some (c, name)) :
    target? base property w = .value (some (c, name)) w := by
  simp only [namedTarget?] at h
  split at h
  · next hc hn =>
    cases h
    simp [target?, Action.bind_value (Action.heap_apply w), hc, ofExcept_ok hn]
  · cases h

theorem beans_of_access {readOnly : Bool}
    (h : beanAccess? host handle readOnly w.heap q = some x) :
    beans host handle readOnly q w = (do Action.claim q.subject.1 q.subject.2; x) w := by
  cases q with
  | get base property =>
    obtain ⟨⟨c, name⟩, ht, rfl⟩ := Option.map_eq_some_iff.mp h
    rw [beans, beansBy, Action.bind_value (target?_named ht)]
    rfl
  | set base property value =>
    obtain ⟨⟨c, name⟩, ht, rfl⟩ := Option.map_eq_some_iff.mp h
    rw [beans, beansBy, Action.bind_value (target?_named ht)]
    rfl
  | invoke base method types args =>
    obtain ⟨⟨c, name⟩, ht, rfl⟩ := Option.map_eq_some_iff.mp h
    rw [beans, beansBy, Action.bind_value (target?_named ht)]
    rfl
  | _ => simp [beanAccess?] at h

/-- A request that a resolver of objects claims is served in the world that the claim leaves. -/
theorem ask_of_access {r : Resolver} (h : access? host handle w.heap r q = some x) :
    r.ask (answer host handle) q w = (do Action.claim q.subject.1 q.subject.2; x) w := by
  cases r with
  | statics => exact statics_of_access h
  | records => exact records_of_access h
  | beans readOnly => exact beans_of_access h
  | _ => simp [access?] at h

/-! ## Requests that have to be claimed -/

variable (host handle)

/-- The answer to a request that has to be claimed. -/
def demand {α : Type} (q : Request α) : Action α :=
  match q with
  | .get base property => get host handle base property
  | .type base property => type host handle base property
  | .set base property value => set host handle base property value
  | .readOnly base property => readOnly host handle base property
  | .invoke base method types args => invoke host handle base method types args
  | .convert v t => Conversion.convert host v t

/-- The fault of a request that nothing claims. -/
def missed (h : Heap) {α : Type} (q : Request α) : Fault :=
  match q with
  | .invoke base method _ _ => .unresolvedMethod (h.display method) (h.typeName base)
  | q => unclaimed h q.subject.1 q.subject.2

variable {host handle}

theorem demand_of_access {h : Heap} {r : Resolver} (hx : access? host handle h r q = some x) :
    demand host handle q = (do
      let a ← resolve host handle q
      if ← Action.isResolved then pure a else Action.fail (missed (← Action.heap) q)) := by
  cases q with
  | convert v t => cases r <;> cases hx
  | _ => rfl

/-- What is demanded is answered with a claim that stands. -/
theorem demand_resolved {h : Heap} {r : Resolver} {a : α} {v : World}
    (hx : access? host handle h r q = some x) (hd : demand host handle q w = .value a v) :
    v.context.resolved = true := by
  rw [demand_of_access hx] at hd
  obtain ⟨b, u, _, hu⟩ := Action.bind_eq_value.mp hd
  obtain ⟨_, _, hr, hv⟩ := Action.bind_eq_value.mp hu
  cases hr
  cases hf : u.context.resolved with
  | false =>
    rw [hf] at hv
    cases hv
  | true =>
    rw [hf] at hv
    cases hv
    exact hf

section Served
variable {w₀ w w₁ w₂ : World} {before after : List Resolver} {r : Resolver} {a : α}

/-- The answer of the chain where a resolver claims the request and serves it with success. -/
theorem resolve_served (hchain : w₀.context.layout.resolvers = before ++ r :: after)
    (hbefore : Declined (answer host handle) q before (w₀.flagged false) w)
    (hserve : access? host handle w.heap r q = some x)
    (hclaim : Action.claim q.subject.1 q.subject.2 w = .value () w₁)
    (hdone : x w₁ = .value a w₂) :
    resolve host handle q w₀ =
      if w₂.context.resolved then .value a w₂ else askAll (answer host handle) after q w₂ := by
  have hask : r.ask (answer host handle) q w = .value a w₂ := by
    rw [ask_of_access hserve, Action.bind_value hclaim]
    exact hdone
  rw [resolve, askChain_apply, hchain, askAll_declined hbefore]
  split
  · next h => exact askAll_cons_resolved hask h
  · next h => exact askAll_cons_declined hask (by simpa using h)

theorem demand_kept (hserve : access? host handle w.heap r q = some x)
    (hresolve : resolve host handle q w₀ = .value a w₂) (hflag : w₂.context.resolved = true) :
    demand host handle q w₀ = .value a w₂ := by
  rw [demand_of_access hserve, Action.bind_value hresolve,
    Action.bind_value (Action.isResolved_apply w₂), hflag]
  rfl

theorem demand_missed (hserve : access? host handle w.heap r q = some x)
    (hresolve : resolve host handle q w₀ = .value a w₂) (hflag : w₂.context.resolved = false) :
    demand host handle q w₀ = .fault (missed w₂.heap q) w₂ := by
  rw [demand_of_access hserve, Action.bind_value hresolve,
    Action.bind_value (Action.isResolved_apply w₂), hflag]
  rfl

/-- A claimed request that was served with success stands exactly where the flag is still set when
the accessor returns. Where evaluation cleared it, the request goes on to the resolvers behind, and
behind the resolver of beans it is one that nothing claims. -/
theorem served_request_stands_iff (hchain : w₀.context.layout.resolvers = before ++ r :: after)
    (hbefore : Declined (answer host handle) q before (w₀.flagged false) w)
    (hserve : access? host handle w.heap r q = some x)
    (hclaim : Action.claim q.subject.1 q.subject.2 w = .value () w₁)
    (hdone : x w₁ = .value a w₂) :
    ((resolve host handle q w₀ = .value a w₂ ∧ demand host handle q w₀ = .value a w₂) ↔
        w₂.context.resolved = true) ∧
      (w₂.context.resolved = false →
        resolve host handle q w₀ = askAll (answer host handle) after q w₂) ∧
      (w₂.context.resolved = false → after = [] →
        demand host handle q w₀ = .fault (missed w₂.heap q) w₂) := by
  have hresolve := resolve_served hchain hbefore hserve hclaim hdone
  refine ⟨⟨fun h => demand_resolved hserve h.2, fun h => ?_⟩, fun h => ?_, fun h hlast => ?_⟩
  · rw [h] at hresolve
    exact ⟨hresolve, demand_kept hserve hresolve h⟩
  · rw [hresolve, h]
    rfl
  · subst hlast
    rw [h] at hresolve
    exact demand_missed (a := q.neutral) hserve hresolve h

end Served

/-- A static field is read through the chain. -/
theorem static_field_stands :
    ∃ w₁, demand Host.bare (Evaluation.evaluator Host.bare)
      (.get (.cls (.builtin .math)) (.text "PI")) (World.fresh Host.bare .none) =
        .value (.double Builtin.pi) w₁ := by
  have hbefore : Declined (answer .bare (Evaluation.evaluator .bare))
      (.get (.cls (.builtin .math)) (.text "PI")) [.names 0, .group []]
      ((World.fresh Host.bare .none).flagged false) (World.fresh Host.bare .none) :=
    ⟨_, _, rfl, rfl, _, _, rfl, rfl, rfl⟩
  exact ⟨_, ((served_request_stands_iff (r := .statics) rfl hbefore rfl rfl rfl).1.mpr rfl).2⟩

/-- A lambda whose body names a class that is imported. -/
def naming : Closure := .mk ["x"] (.name "Math") .empty []

/-- Where the name is that of a class. -/
def mathWorld : World := .fresh .bare ⟨[("Math", .builtin .math)], []⟩

/-- The world in which the call of the lambda is claimed. -/
def claimedWorld : World :=
  { mathWorld.flagged true with log := [.resolved "LambdaExpression" "invoke"] }

theorem bare_lambda_ancestors :
    Host.bare.classes.lineage.ancestors (.builtin .lambda) =
      [.builtin .lambda, .builtin .object] :=
  Lineage.ancestors_below_object rfl

/-- The only method of lambdas themselves. -/
def lambdaInvoke : Method :=
  ⟨{ name := "invoke", gathers := some .object, body := some Builtin.invokeLambda },
    ⟨.builtin .lambda, false, 0⟩⟩

theorem bare_lambda_methods : ∃ rest,
    Host.bare.classes.allMethods (.builtin .lambda) = lambdaInvoke :: rest ∧
      rest.filter (·.name == "invoke") = [] := by
  rw [ClassTable.allMethods, ClassTable.defaultMethods, Lineage.allInterfaces_builtin,
    ClassTable.classMethods, bare_lambda_ancestors]
  exact ⟨_, rfl, rfl⟩

theorem find_lambda_invoke (owner : String) :
    Overload.find claimedWorld.heap owner (Host.bare.classes.allMethods (.builtin .lambda)) "invoke"
      none [.long 1] = .ok lambdaInvoke := by
  obtain ⟨rest, hm, hrest⟩ := bare_lambda_methods
  have hnamed : (lambdaInvoke :: rest).filter (·.name == "invoke") = [lambdaInvoke] := by
    rw [List.filter_cons_of_pos rfl, hrest]
  rw [hm, Overload.find]
  simp only [hnamed]
  rfl

/-- Calling the lambda gives the class, and looking for a value of that name clears the flag. -/
theorem lambda_invoke_clears (depth : Nat) : ∃ w₂,
    lambdaInvoke.invoke .bare (Evaluation.run .bare (depth + 1)) (.lambda naming) [.long 1]
        claimedWorld = .value (.cls (.builtin .math)) w₂ ∧
      w₂.context.resolved = false :=
  ⟨_, rfl, rfl⟩

/-- The call of the lambda. -/
def callNaming : Request Value := .invoke (.lambda naming) (.text "invoke") none [.long 1]

/-- How the resolver of beans serves it. -/
def serveNaming : Action Value := do
  callBest .bare (Evaluation.evaluator .bare) ((← Action.heap).lineage.name (.builtin .lambda))
    (Host.bare.classes.allMethods (.builtin .lambda)) "invoke" none (.lambda naming) [.long 1]

theorem access_naming :
    access? .bare (Evaluation.evaluator .bare) mathWorld.heap (.beans false) callNaming =
      some serveNaming := rfl

theorem claim_naming :
    Action.claim callNaming.subject.1 callNaming.subject.2 mathWorld = .value () claimedWorld := rfl

theorem serveNaming_clears : ∃ w₂,
    serveNaming claimedWorld = .value (.cls (.builtin .math)) w₂ ∧ w₂.context.resolved = false := by
  obtain ⟨w₂, hrun, hflag⟩ := lambda_invoke_clears 999999
  refine ⟨w₂, ?_, hflag⟩
  rw [serveNaming, Action.bind_value (Action.heap_apply claimedWorld), callBest,
    Action.bind_value (Action.heap_apply claimedWorld), find_lambda_invoke]
  exact hrun

theorem naming_declined :
    Declined (answer .bare (Evaluation.evaluator .bare)) callNaming
      [.names 0, .group [], .statics, .maps false, .lists false, .arrays false, .records]
      (mathWorld.flagged false) mathWorld :=
  ⟨_, _, rfl, rfl, _, _, rfl, rfl, _, _, rfl, rfl, _, _, rfl, rfl, _, _, rfl, rfl, _, _, rfl,
    rfl, _, _, rfl, rfl, rfl⟩

/-- The call of a lambda is claimed and gives a value, and yet it is one of an unknown method: looking
up the name in the body was the last request. -/
theorem lambda_call_missed : ∃ before x w₁ w₂,
    mathWorld.context.layout.resolvers = before ++ [.beans false] ∧
      Declined (answer .bare (Evaluation.evaluator .bare)) callNaming before
        (mathWorld.flagged false) mathWorld ∧
      access? .bare (Evaluation.evaluator .bare) mathWorld.heap (.beans false) callNaming = some x ∧
      Action.claim (.lambda naming) (.text "invoke") mathWorld = .value () w₁ ∧
      x w₁ = .value (.cls (.builtin .math)) w₂ ∧
      demand .bare (Evaluation.evaluator .bare) callNaming mathWorld =
        .fault (.unresolvedMethod "invoke" "LambdaExpression") w₂ := by
  obtain ⟨w₂, hdone, hflag⟩ := serveNaming_clears
  refine ⟨_, serveNaming, claimedWorld, w₂, rfl, naming_declined, access_naming, claim_naming,
    hdone, ?_⟩
  have hresolve := resolve_served rfl naming_declined access_naming claim_naming hdone
  rw [hflag] at hresolve
  exact demand_missed (a := Value.null) access_naming hresolve hflag

end Resolution

end ExprLang
