import ExprLang.HostCode.Accessor
import ExprLang.Proofs.Declared
import ExprLang.Proofs.Resolution.Rerun

/-! Getters that repeat what they do: those of all builtin classes, and code of the host that looks at the
value alone. -/

namespace ExprLang

variable {s : Rerun} {host : Host} {handle : Handler} {g h : Heap} {v w : Value}

/-! ## Code that looks -/

/-- Code that, on the value of the second run, finds there what it finds in the first run. -/
def Rerun.Looks (s : Rerun) (f : Heap → Value → Except Failure Value) : Prop :=
  ∀ g h v, s.memory.Twins s.distance g h → v.Below g.cells.size →
    ExceptRel (s.Same g.cells.size) (f g v) (f h (s.moved v))

/-- Code that makes a value of cells, and makes its counterpart in the second run. -/
def Rerun.Makes (s : Rerun) (f : Heap → Value → Except Failure (Value × Heap)) : Prop :=
  ∀ g h v, s.memory.Twins s.distance g h → v.Below g.cells.size →
    ExceptRel (s.Made g) (f g v) (f h (s.moved v))

namespace HostCode

variable {f : Heap → Except Failure (Value × Heap)} {k : World}

theorem perform_change_ok {r : Value × Heap} (hf : f k.heap = .ok r) :
    (change f).perform host handle k =
      .value (.ok r.1) { k with heap := { k.heap with cells := r.2.cells } } := by
  rw [change, perform, Action.bind_value (Action.heap_apply k), hf]
  rfl

theorem perform_change_error {e : Failure} (hf : f k.heap = .error e) :
    (change f).perform host handle k = .value (.error e) k := by
  rw [change, perform, Action.bind_value (Action.heap_apply k), hf]
  rfl

end HostCode

namespace Method

variable {m : Method}

/-- The way in which a run of a method ends. -/
theorem run_of_body {code : Value → List Value → HostCode} (hm : m.body = some code) (self : Value)
    (args : List Value) :
    m.run host handle self args =
      (code self args).perform host handle >>= fun r =>
        match r with
        | .ok v => pure v
        | .error e => Action.fail e.toFault := by
  obtain ⟨⟨⟩, _⟩ := m
  cases hm
  rfl

theorem repeatable_of_looks {f : Heap → Value → Except Failure Value}
    (hm : m.body = some fun self _ => .look fun h => f h self) (hf : s.Looks f) :
    m.Repeatable s host handle := by
  intro n v w hv
  rw [run_of_body hm, run_of_body hm, hv.eq]
  refine Rerun.Repeats.bind (p := fun n => ExceptRel (s.Same n)) ?_ ?_
  · refine .heap_bind fun g h ht hn => .pure fun k hk => ?_
    exact (hf g h v ht (hv.below.mono hn)).mono fun _ _ hr => hr.mono hk
  · rintro k _ _ _ (hr | e)
    · exact .pure_same hr
    · exact .fail _

theorem repeatable_of_makes {f : Heap → Value → Except Failure (Value × Heap)}
    (hm : m.body = some fun self _ => .change fun h => f h self) (hf : s.Makes f) :
    m.Repeatable s host handle := by
  intro n v w hv k u hk hn
  rw [run_of_body hm, run_of_body hm, hv.eq]
  have hmade := hf k.heap u.heap v hk.heaps (hv.below.mono hn)
  generalize hx : f k.heap v = x at hmade
  generalize hy : f u.heap (s.moved v) = y at hmade
  cases hmade with
  | ok hr =>
    rw [Action.bind_value (HostCode.perform_change_ok (f := fun h => f h v) hx),
      Action.bind_value (HostCode.perform_change_ok (f := fun h => f h (s.moved v)) hy)]
    exact .value (hk.written hr.twins) hr.grown hr.same
  | error e =>
    rw [Action.bind_value (HostCode.perform_change_error (f := fun h => f h v) hx),
      Action.bind_value (HostCode.perform_change_error (f := fun h => f h (s.moved v)) hy)]
    exact .fault hk

/-- Reading a field of the receiver. -/
theorem repeatable_of_getField {name : String}
    (hm : m.body = some fun self _ => HostCode.getField name self) : m.Repeatable s host handle := by
  have hlook (self : Value) : HostCode.getField name self = .look fun h =>
      (self.ofObject? h.object?).elim (.error (.plain "no receiver")) fun o =>
        .ok ((o.fields.find? name).getD .null) := by
    refine congrArg HostCode.read (funext fun h => ?_)
    cases self with
    | object a =>
      dsimp only [Value.ofObject?]
      cases h.object? a <;> rfl
    | _ => rfl
  refine repeatable_of_looks (hm.trans (congrArg some (funext fun self => funext fun _ => hlook self)))
    fun g h v ht _ => ?_
  rw [Value.ofObject?_rename]
  cases v with
  | object a =>
    dsimp only [Value.ofObject?]
    rw [ht.renames.object?]
    cases ho : g.object? a with
    | none => exact .error _
    | some o =>
      refine .ok ?_
      rw [HostObject.rename, Bindings.find?_map]
      cases hv : o.fields.find? name with
      | none => exact Rerun.same_of_isAtom rfl
      | some v => exact ⟨ht.closed.object ho _ (Bindings.mem_of_find? hv), rfl⟩
  | _ => exact .error _

end Method

/-! ## Values that look alike -/

/-- The class that the value is, if it is one. -/
def Value.class? : Value → Option ClassId
  | .cls c => some c
  | _ => none

/-- The point in time that the value is, if it is one. -/
def Value.instant? : Value → Option Instant
  | .instant t => some t
  | _ => none

namespace Builtin

variable (hr : g.Resembles h v w)
include hr

theorem mismatch_resembles {α : Type} (wanted : String) :
    (mismatch h wanted w : Except Failure α) = mismatch g wanted v := by
  simp only [mismatch, hr.typeName]

/-- What is found in an atom, or a complaint about the type of the value. -/
theorem found_resembles {α : Type} {find : Heap → Value → Except Failure α} {wanted : String}
    (value? : Value → Option α)
    (hfind : ∀ k u, find k u = match value? u with
      | some a => .ok a
      | none => mismatch k wanted u)
    (hvalue : ∀ u : Value, u.isAtom = false → value? u = none) : find h w = find g v := by
  rw [hfind, hfind, hr.same hvalue, mismatch_resembles hr]

theorem asText_resembles : asText h w = asText g v :=
  found_resembles hr Value.text? (fun _ u => by cases u <;> rfl) fun _ => Value.text?_of_not_atom

theorem asClass_resembles : asClass h w = asClass g v :=
  found_resembles hr Value.class? (fun _ u => by cases u <;> rfl)
    fun u hu => by cases u <;> first | rfl | cases hu

theorem asInstant_resembles : asInstant h w = asInstant g v :=
  found_resembles hr Value.instant? (fun _ u => by cases u <;> rfl)
    fun u hu => by cases u <;> first | rfl | cases hu

theorem asBig_resembles : asBig h w = asBig g v := congrArg _ (hr.toTarget _)

theorem asDecimal_resembles : asDecimal h w = asDecimal g v := congrArg _ (hr.toTarget _)

end Builtin

/-! ## Builtin methods -/

/-- The method takes something, or repeats what it does. -/
inductive Declaration.Replays (d : Declaration) : Prop
  | takes (hd : d.fixed ≠ [] ∨ d.gathers ≠ none)
  | looks {f : Heap → Value → Except Failure Value}
      (hd : d.body = some fun self _ => .look fun h => f h self) (hf : ∀ s : Rerun, s.Looks f)
  | makes {f : Heap → Value → Except Failure (Value × Heap)}
      (hd : d.body = some fun self _ => .change fun h => f h self) (hf : ∀ s : Rerun, s.Makes f)

namespace Builtin

variable {name : String} {returns p : TypeRef} {params : List TypeRef}

@[simp] theorem query_takes {f : Heap → Value → List Value → Except Failure Value} :
    (query name (p :: params) returns f).Replays := .takes (.inl nofun)

@[simp] theorem command_takes {f : Heap → Value → List Value → Except Failure (Value × Heap)} :
    (command name (p :: params) returns f).Replays := .takes (.inl nofun)

@[simp] theorem function_takes {f : Heap → List Value → Except Failure Value} :
    (function name (p :: params) returns f).Replays := .takes (.inl nofun)

/-- What is computed alike from values that look alike, and refers to no cell. -/
theorem query_replays {f : Heap → Value → Except Failure Value}
    (hf : ∀ {g h v w}, g.Resembles h v w → f h w = f g v) (ha : ∀ h v, Value.AtomIn (f h v)) :
    (query name [] returns fun h self _ => f h self).Replays := by
  refine .looks rfl fun s g h v ht _ => ?_
  rw [hf (ht.resembles v)]
  have hatom := ha g v
  revert hatom
  cases f g v with
  | ok r => exact fun hatom => .ok (Rerun.same_of_isAtom (hatom r rfl))
  | error e => exact fun _ => .error e

@[simp] theorem self_replays : (query name [] returns fun _ self _ => .ok self).Replays :=
  .looks rfl fun _ _ _ _ _ hv => .ok ⟨hv, rfl⟩

@[simp] theorem conversion_replays (k : NumberKind) : (conversion name returns k).Replays :=
  query_replays (f := fun h v => (Coercion.toNumber h k v).mapError .fault)
    (fun hr => by rw [hr.toNumber]) fun h v => ResultIn.mapError_iff.mpr (Coercion.toNumber_atom h k v)

/-- What is computed from something that is read alike. -/
theorem read_replays {α : Type} {read : Heap → Value → Except Failure α}
    (make : Lineage → α → Value)
    (hread : ∀ {g h v w}, g.Resembles h v w → read h w = read g v)
    (hmake : ∀ l a, (make l a).isAtom = true) :
    (query name [] returns fun h self _ => do return make h.lineage (← read h self)).Replays :=
  query_replays (fun hr => by rw [hread hr, hr.lineage]) fun h _ =>
    ResultIn.bind_iff.mpr fun a _ => ResultIn.pure_iff.mpr (hmake h.lineage a)

theorem ofText_replays {f : String → Value} (hf : ∀ t, (f t).isAtom = true) :
    (ofText name returns f).Replays :=
  read_replays (fun _ => f) asText_resembles fun _ => hf

theorem objectMethods_replay : ∀ d ∈ objectMethods, d.Replays := by
  simp only [objectMethods, List.forall_mem_cons, query_takes, true_and]
  refine ⟨.looks rfl fun s g h v ht _ => ?_, ?_, List.forall_mem_nil _⟩
  · rw [ht.renames.classOf?]
    refine .ok (Rerun.same_of_isAtom ?_)
    cases g.classOf? v <;> rfl
  · exact query_replays (f := fun h v => .ok (.text (h.display v))) (fun hr => by rw [hr.display])
      fun _ _ => ResultIn.ok_iff.mpr rfl

theorem textMethods_replay : ∀ d ∈ textMethods, d.Replays := by
  simp only [textMethods, ofTexts, List.forall_mem_cons, query_takes, function_takes, true_and]
  exact ⟨ofText_replays fun _ => rfl, ofText_replays fun _ => rfl, ofText_replays fun _ => rfl,
    ofText_replays fun _ => rfl, ofText_replays fun _ => rfl, List.forall_mem_nil _⟩

theorem booleanMethods_replay : ∀ d ∈ booleanMethods, d.Replays := by
  simp [booleanMethods]

theorem characterMethods_replay : ∀ d ∈ characterMethods, d.Replays := by
  simp [characterMethods, isCharacter]

theorem classMethods_replay : ∀ d ∈ classMethods, d.Replays := by
  simp only [classMethods, List.forall_mem_cons]
  exact ⟨read_replays (fun l c => .text (l.name c)) asClass_resembles fun _ _ => rfl,
    read_replays (fun l c => .text (l.simpleName c)) asClass_resembles fun _ _ => rfl, List.forall_mem_nil _⟩

theorem bigMethods_replay : ∀ d ∈ bigMethods, d.Replays := by
  simp only [bigMethods, bigOperation, List.forall_mem_cons, query_takes, function_takes, true_and]
  exact ⟨read_replays (fun _ n => .bigInt (-n)) asBig_resembles fun _ _ => rfl,
    read_replays (fun _ n => intValue n.sign) asBig_resembles fun _ _ => rfl, List.forall_mem_nil _⟩

theorem decimalMethods_replay : ∀ d ∈ decimalMethods, d.Replays := by
  simp only [decimalMethods, decimalOperation, List.forall_mem_cons, query_takes, function_takes,
    true_and]
  exact ⟨read_replays (fun _ x => .decimal x.neg) asDecimal_resembles fun _ _ => rfl,
    read_replays (fun _ x => intValue x.scale) asDecimal_resembles fun _ _ => rfl,
    conversion_replays .bigInt, List.forall_mem_nil _⟩

theorem instantMethods_replay : ∀ d ∈ instantMethods, d.Replays := by
  simp only [instantMethods, List.forall_mem_cons, function_takes, true_and]
  exact ⟨read_replays (fun _ t => .long (Int64.ofInt t.toMillis)) asInstant_resembles fun _ _ => rfl,
    read_replays (fun _ t => .long (Int64.ofInt t.second)) asInstant_resembles fun _ _ => rfl, List.forall_mem_nil _⟩

/-! ## Collections -/

section Twins

variable (ht : s.memory.Twins s.distance g h)
include ht

theorem mismatch_replays {α : Type} {r : α → α → Prop} (wanted : String) (v : Value) :
    ExceptRel r (mismatch g wanted v) (mismatch h wanted (s.moved v)) := by
  rw [mismatch_resembles (ht.resembles v)]
  exact .error _

theorem asItems_replays (v : Value) :
    ExceptRel (s.SameAll g.cells.size) (asItems g v) (asItems h (s.moved v)) := by
  have hrefused : ExceptRel (s.SameAll g.cells.size) (mismatch g "collection" v)
    (mismatch h "collection" (s.moved v)) := mismatch_replays ht _ v
  cases v with
  | list a | set a => exact .ok ⟨ht.closed.items a, ht.renames.items a⟩
  | _ => exact hrefused

theorem asEntries_replays (v : Value) :
    ExceptRel (s.SameEntries g.cells.size) (asEntries g v) (asEntries h (s.moved v)) := by
  have hrefused : ExceptRel (s.SameEntries g.cells.size) (mismatch g "Map" v)
    (mismatch h "Map" (s.moved v)) := mismatch_replays ht _ v
  cases v with
  | map a => exact .ok ⟨ht.closed.entries a, ht.renames.entries a⟩
  | _ => exact hrefused

end Twins

theorem ofItems_replays {f : List Value → Value} (hf : ∀ vs, (f vs).isAtom = true)
    (hmap : ∀ k vs, f (vs.map (Value.rename k)) = f vs) : (ofItems name returns f).Replays := by
  refine .looks rfl fun s g h v ht _ => (asItems_replays ht v).bind fun vs ws hvs => ?_
  rw [hvs.eq, hmap]
  exact .ok (Rerun.same_of_isAtom (hf vs))

theorem ofEntries_replays {f : List (Value × Value) → Value} (hf : ∀ es, (f es).isAtom = true)
    (hmap : ∀ k es, f (es.map (renameEntry k)) = f es) : (ofEntries name returns f).Replays := by
  refine .looks rfl fun s g h v ht _ => (asEntries_replays ht v).bind fun es ds hes => ?_
  rw [hes.eq, hmap]
  exact .ok (Rerun.same_of_isAtom (hf es))

theorem itemCount_replay : ∀ d ∈ itemCount, d.Replays := by
  simp only [itemCount, List.forall_mem_cons]
  refine ⟨ofItems_replays (fun _ => rfl) fun k vs => ?_, ofItems_replays (fun _ => rfl) fun k vs => ?_,
    List.forall_mem_nil _⟩
  · rw [List.length_map]
  · rw [List.isEmpty_map]

theorem listMethods_replay : ∀ d ∈ listMethods, d.Replays :=
  List.forall_mem_append.mpr ⟨itemCount_replay, by simp [holdsItem]⟩

theorem setMethods_replay : ∀ d ∈ setMethods, d.Replays :=
  List.forall_mem_append.mpr ⟨itemCount_replay, by simp [holdsItem]⟩

theorem mapMethods_replay : ∀ d ∈ mapMethods, d.Replays := by
  simp only [mapMethods, List.forall_mem_cons, query_takes, command_takes, true_and]
  refine ⟨ofEntries_replays (fun _ => rfl) fun k es => ?_,
    ofEntries_replays (fun _ => rfl) fun k es => ?_, .makes rfl fun s g h v ht _ => ?_,
    .makes rfl fun s g h v ht _ => ?_, List.forall_mem_nil _⟩
  · rw [List.length_map]
  · rw [List.isEmpty_map]
  · refine (asEntries_replays ht v).bind fun es ds hes => .ok (Rerun.made_set ht le_rfl ⟨?_, ?_⟩)
    · exact List.forall_mem_map.mpr fun e he => (hes.below e he).1
    · rw [hes.eq, List.map_map, List.map_map]
      rfl
  · refine (asEntries_replays ht v).bind fun es ds hes => .ok (Rerun.made_list ht le_rfl ⟨?_, ?_⟩)
    · exact List.forall_mem_map.mpr fun e he => (hes.below e he).2
    · rw [hes.eq, List.map_map, List.map_map]
      rfl

/-! ## All classes -/

theorem methods_replay (b : Builtin) : ∀ d ∈ b.methods, d.Replays := by
  cases b with
  | object => exact objectMethods_replay
  | string => exact textMethods_replay
  | boolean => exact booleanMethods_replay
  | character => exact characterMethods_replay
  | bigInteger => exact bigMethods_replay
  | bigDecimal => exact decimalMethods_replay
  | list => exact listMethods_replay
  | set => exact setMethods_replay
  | map => exact mapMethods_replay
  | instant => exact instantMethods_replay
  | cls => exact classMethods_replay
  | lambda => exact List.forall_mem_singleton.mpr (.takes (.inr nofun))
  | _ =>
    simp [methods, numberMethods, byteMethods, shortMethods, integerMethods, longMethods,
      floatMethods, doubleMethods, mathMethods, integerReader, ofDouble, ofPair]

end Builtin

/-- A builtin method that takes nothing does to the value of a second run what it did to the first. -/
theorem Declaration.Replays.repeatable {m : Method} (h : m.Replays) (hm : m.params = []) :
    m.Repeatable s host handle := by
  cases h with
  | takes hd =>
    rw [Method.params, List.append_eq_nil_iff] at hm
    rcases hd with hd | hd
    · exact absurd hm.1 hd
    · cases hgathers : m.gathers with
      | none => exact absurd hgathers hd
      | some t =>
        rw [hgathers] at hm
        cases hm.2
  | looks hd hf => exact Method.repeatable_of_looks hd (hf s)
  | makes hd hf => exact Method.repeatable_of_makes hd (hf s)

end ExprLang
