import ExprLang.Builtin.Table
import ExprLang.Proofs.Lists
import Mathlib.Data.List.Pairwise

/-! The table of the methods that a class offers: of the methods of one signature it keeps the first. -/

namespace ExprLang

/-! ## Signatures -/

namespace Method
variable {m n : Method}

theorem sameSignature_iff : m.sameSignature n = true ↔ m.name = n.name ∧ m.params = n.params := by
  rw [sameSignature, Bool.and_eq_true, beq_iff_eq, beq_iff_eq]

theorem sameSignature_refl (m : Method) : m.sameSignature m = true :=
  sameSignature_iff.mpr ⟨rfl, rfl⟩

theorem sameSignature_comm (m n : Method) : m.sameSignature n = n.sameSignature m := by
  rw [sameSignature, sameSignature, Bool.beq_comm (a := m.name), Bool.beq_comm (a := m.params)]

/-- Methods of one signature share it with the same methods. -/
theorem sameSignature_congr (h : m.sameSignature n = true) (k : Method) :
    m.sameSignature k = n.sameSignature k := by
  rw [sameSignature_iff] at h
  rw [sameSignature, sameSignature, h.1, h.2]

/-- Among methods of different signatures one is the only one with its name and parameters. -/
theorem eq_of_sameSignature {ms : List Method}
    (hms : ms.Pairwise fun m n => m.sameSignature n = false) (hm : m ∈ ms) (hn : n ∈ ms)
    (h : m.sameSignature n = true) : m = n := by
  have : Std.Symm fun m n : Method => m.sameSignature n = false :=
    ⟨fun m n hmn => (sameSignature_comm n m).trans hmn⟩
  by_contra hne
  rw [hms.forall hm hn hne] at h
  cases h

end Method

namespace ClassTable
variable {t : ClassTable} {m n e : Method} {ms : List Method} {c : ClassId}

/-! ## The first of each signature -/

theorem unhidden_eq (ms : List Method) :
    unhidden ms = ms.eraseDupsBy fun m n => n.sameSignature m := by
  suffices hloop : ∀ kept : List Method, ms.foldl (fun kept m =>
      if kept.any (·.sameSignature m) then kept else kept ++ [m]) kept =
        List.eraseDupsBy.loop (fun m n => n.sameSignature m) ms kept.reverse from hloop []
  induction ms with
  | nil =>
    intro kept
    rw [List.foldl_nil, List.eraseDupsBy.loop, List.reverse_reverse]
  | cons m ms ih =>
    intro kept
    rw [List.foldl_cons, ih, List.eraseDupsBy.loop, List.any_reverse]
    cases kept.any (·.sameSignature m) with
    | true => rfl
    | false => simp

theorem mem_of_mem_unhidden (h : m ∈ unhidden ms) : m ∈ ms := by
  rw [unhidden_eq] at h
  exact mem_of_mem_eraseDupsBy h

theorem pairwise_unhidden (ms : List Method) :
    (unhidden ms).Pairwise fun m n => m.sameSignature n = false := by
  rw [unhidden_eq]
  exact pairwise_eraseDupsBy _ ms

theorem find?_unhidden (ms : List Method) (m : Method) :
    (unhidden ms).find? (·.sameSignature m) = ms.find? (·.sameSignature m) := by
  rw [unhidden_eq]
  exact find?_eraseDupsBy (p := (·.sameSignature m))
    (fun k n h => (Method.sameSignature_congr h m).symm) ms

theorem exists_find?_sameSignature (hm : m ∈ ms) :
    ∃ e ∈ ms, e.sameSignature m = true ∧ ms.find? (·.sameSignature m) = some e := by
  have hsome : (ms.find? (·.sameSignature m)).isSome = true :=
    List.find?_isSome.mpr ⟨m, hm, m.sameSignature_refl⟩
  obtain ⟨e, he⟩ := Option.isSome_iff_exists.mp hsome
  have hsame : e.sameSignature m = true := List.find?_some (p := fun e : Method => e.sameSignature m) he
  exact ⟨e, List.mem_of_find?_eq_some he, hsame, he⟩

/-- What is kept comes first of its signature. -/
theorem mem_unhidden_iff : m ∈ unhidden ms ↔ ms.find? (·.sameSignature m) = some m := by
  rw [← find?_unhidden]
  refine ⟨fun hm => ?_, List.mem_of_find?_eq_some⟩
  obtain ⟨e, he, hsame, hfound⟩ := exists_find?_sameSignature hm
  rw [hfound, Method.eq_of_sameSignature (pairwise_unhidden ms) he hm hsame]

theorem exists_mem_unhidden (hm : m ∈ ms) : ∃ e ∈ unhidden ms, e.sameSignature m = true := by
  obtain ⟨e, -, hsame, hfound⟩ := exists_find?_sameSignature hm
  rw [← find?_unhidden] at hfound
  exact ⟨e, List.mem_of_find?_eq_some hfound, hsame⟩

/-- No two methods that a class offers have the same name and parameters. -/
theorem pairwise_allMethods (t : ClassTable) (c : ClassId) :
    (t.allMethods c).Pairwise fun m n => m.sameSignature n = false := by
  refine List.pairwise_append.mpr ⟨pairwise_unhidden _, pairwise_unhidden _, fun m hm n hn => ?_⟩
  have hdefault := (List.mem_filter.mp (mem_of_mem_unhidden hn)).2
  simp only [Bool.and_eq_true, Bool.not_eq_true', List.any_eq_false] at hdefault
  exact Bool.eq_false_iff.mpr (hdefault.2 m hm)

/-- A method that a class offers is the only one of its signature. -/
theorem entry_unique (he : e ∈ t.allMethods c) (hsame : e.sameSignature m = true) :
    n ∈ t.allMethods c ∧ n.sameSignature m = true ↔ n = e := by
  constructor
  · rintro ⟨hn, hnsame⟩
    refine Method.eq_of_sameSignature (t.pairwise_allMethods c) hn he ?_
    rw [Method.sameSignature_comm] at hsame
    rw [Method.sameSignature_congr hnsame, hsame]
  · rintro rfl
    exact ⟨he, hsame⟩

/-! ## Places -/

/-- Every method carries its place in the table. -/
def Placed (t : ClassTable) : Prop := ∀ id m, t.method? id = some m → m.id = id

theorem Placed.owner (ht : t.Placed) (hm : m ∈ (t.members c).methods) : m.id.owner = c := by
  obtain ⟨i, hi⟩ := List.mem_iff_getElem?.mp hm
  exact congrArg MethodId.owner (ht ⟨c, false, i⟩ m hi)

theorem mem_of_mem_place {owner : ClassId} {isConstructor : Bool} {ds : List Declaration}
    (h : m ∈ ClassMembers.place owner isConstructor ds) : m.toDeclaration ∈ ds := by
  obtain ⟨⟨d, i⟩, hd, rfl⟩ := List.mem_map.mp h
  exact List.fst_mem_of_mem_zipIdx hd

theorem mem_place {owner : ClassId} {isConstructor : Bool} {ds : List Declaration} {i : Nat}
    (h : (ClassMembers.place owner isConstructor ds)[i]? = some m) :
    m.id = ⟨owner, isConstructor, i⟩ := by
  rw [ClassMembers.place, List.getElem?_map] at h
  obtain ⟨⟨d, j⟩, hd, rfl⟩ := Option.map_eq_some_iff.mp h
  rw [List.getElem?_zipIdx, Nat.zero_add] at hd
  obtain ⟨_, -, hpair⟩ := Option.map_eq_some_iff.mp hd
  cases hpair
  rfl

/-- Methods that are declared for their classes are at their places. -/
theorem placed_ofHost {classes : Array HostClass}
    (h : ∀ (n : Nat) (c : HostClass), classes[n]? = some c → ∃ methods constructors fields components,
      c.members = .declare (.host n) methods constructors fields components) :
    (ofHost classes).Placed := by
  rintro ⟨owner, isConstructor, i⟩ m hm
  cases owner with
  | builtin b => cases isConstructor <;> exact mem_place hm
  | host n =>
    have hmembers : (ofHost classes).members (.host n) = (classes.getD n default).members := rfl
    rw [method?, hmembers, Array.getD_eq_getD_getElem?] at hm
    cases hc : classes[n]? with
    | none =>
      rw [hc] at hm
      cases isConstructor <;> cases hm
    | some c =>
      obtain ⟨methods, constructors, fields, components, hdeclared⟩ := h n c hc
      rw [hc, Option.getD_some, hdeclared] at hm
      cases isConstructor <;> exact mem_place hm

end ClassTable

end ExprLang

/-! ## Entries

A class has one entry for a signature: the public declaration that is nearest to it along its
superclasses, or else what an interface provides. -/

namespace ExprLang

/-- What interfaces provide: public methods that have a receiver and a body. -/
def Method.isDefault (m : Method) : Bool := m.isPublic && !m.isStatic && !m.isAbstract

namespace ClassTable
variable {t : ClassTable} {c : ClassId} {ks : List ClassId} {test : Method → Bool} {m n e : Method}
  {ms : List Method}

/-- A declaration that passes a test, where no class before its own declares one of its signature that
does. -/
def Nearest (t : ClassTable) (ks : List ClassId) (test : Method → Bool) (e : Method) : Prop :=
  ∃ before k after, ks = before ++ k :: after ∧ e ∈ (t.members k).methods ∧ test e = true ∧
    ∀ j ∈ before, ∀ n ∈ (t.members j).methods, test n = true → n.sameSignature e = false

theorem find?_declared_eq_none :
    ms.find? (fun n => test n && n.sameSignature e) = none ↔
      ∀ n ∈ ms, test n = true → n.sameSignature e = false := by
  simp only [List.find?_eq_none, Bool.and_eq_true, not_and, Bool.not_eq_true]

theorem of_find?_declared (h : ms.find? (fun n => test n && n.sameSignature e) = some n) :
    n ∈ ms ∧ test n = true ∧ n.sameSignature e = true := by
  have hn := List.find?_some (p := fun n => test n && n.sameSignature e) h
  exact ⟨List.mem_of_find?_eq_some h, Bool.and_eq_true_iff.mp hn⟩

/-- Among methods of different signatures one is found by its own. -/
theorem find?_declared (hms : ms.Pairwise fun m n => m.sameSignature n = false) (he : e ∈ ms)
    (htest : test e = true) : ms.find? (fun n => test n && n.sameSignature e) = some e := by
  cases hfound : ms.find? (fun n => test n && n.sameSignature e) with
  | none =>
    have hself := find?_declared_eq_none.mp hfound e he htest
    rw [e.sameSignature_refl] at hself
    cases hself
  | some n =>
    obtain ⟨hn, -, hsame⟩ := of_find?_declared hfound
    rw [Method.eq_of_sameSignature hms hn he hsame]

/-- The methods that are kept of those that pass a test, by the classes that declare them. -/
theorem mem_unhidden_declared :
    e ∈ unhidden ((ks.flatMap fun k => (t.members k).methods).filter test) ↔
      ∃ before k after, ks = before ++ k :: after ∧
        (t.members k).methods.find? (fun n => test n && n.sameSignature e) = some e ∧
          ∀ j ∈ before, ∀ n ∈ (t.members j).methods, test n = true → n.sameSignature e = false := by
  rw [mem_unhidden_iff, List.find?_filter, List.find?_flatMap, List.findSome?_eq_some_iff]
  simp only [Bool.decide_and, Bool.decide_eq_true, find?_declared_eq_none]

theorem nearest_of_mem_unhidden
    (he : e ∈ unhidden ((ks.flatMap fun k => (t.members k).methods).filter test)) :
    t.Nearest ks test e := by
  obtain ⟨before, k, after, hks, hfound, hbefore⟩ := mem_unhidden_declared.mp he
  obtain ⟨hmem, htest, -⟩ := of_find?_declared hfound
  exact ⟨before, k, after, hks, hmem, htest, hbefore⟩

/-- Where no class declares a signature twice, the nearest declarations are those that are kept. -/
theorem nearest_iff_mem_unhidden
    (honce : ∀ k ∈ ks, (t.members k).methods.Pairwise fun m n => m.sameSignature n = false) :
    t.Nearest ks test e ↔ e ∈ unhidden ((ks.flatMap fun k => (t.members k).methods).filter test) := by
  refine ⟨?_, nearest_of_mem_unhidden⟩
  rintro ⟨before, k, after, rfl, he, htest, hbefore⟩
  have hk := honce k (List.mem_append_right before List.mem_cons_self)
  exact mem_unhidden_declared.mpr ⟨before, k, after, rfl, find?_declared hk he htest, hbefore⟩

theorem mem_declared {k : ClassId} (test : Method → Bool) (hk : k ∈ ks)
    (hm : m ∈ (t.members k).methods) (htest : test m = true) :
    m ∈ (ks.flatMap fun k => (t.members k).methods).filter test :=
  List.mem_filter.mpr ⟨List.mem_flatMap.mpr ⟨k, hk, hm⟩, htest⟩

/-- A default of a signature that the class has no method of. -/
def isOffered (t : ClassTable) (c : ClassId) (m : Method) : Bool :=
  m.isDefault && !(t.classMethods c).any (·.sameSignature m)

theorem defaultMethods_eq (t : ClassTable) (c : ClassId) :
    t.defaultMethods c = unhidden
      (((t.lineage.allInterfaces c).flatMap fun k => (t.members k).methods).filter (t.isOffered c)) :=
  rfl

/-- What an interface offers has a default as its entry. -/
theorem exists_default_entry {i : ClassId} (hi : i ∈ t.lineage.allInterfaces c)
    (hm : m ∈ (t.members i).methods) (hoffered : t.isOffered c m = true) :
    ∃ e ∈ t.defaultMethods c, ∀ n, n ∈ t.allMethods c ∧ n.sameSignature m = true ↔ n = e := by
  obtain ⟨e, he, hsame⟩ := exists_mem_unhidden (mem_declared (t.isOffered c) hi hm hoffered)
  exact ⟨e, he, fun n => entry_unique (List.mem_append_right _ he) hsame⟩

/-- Where no superclass declares a signature twice, a class has one entry for each signature. That of a
signature declared publicly along its superclasses is the only nearest such declaration; that of one that
an interface provides is a method of the class or a default. -/
theorem one_entry_per_signature (t : ClassTable) (c : ClassId)
    (honce : ∀ k ∈ t.lineage.ancestors c,
      (t.members k).methods.Pairwise fun m n => m.sameSignature n = false) :
    ((t.allMethods c).Pairwise fun m n => m.sameSignature n = false) ∧
      (∀ k ∈ t.lineage.ancestors c, ∀ m ∈ (t.members k).methods, m.isPublic = true →
        ∃ e, (∀ n, t.Nearest (t.lineage.ancestors c) (·.isPublic) n ∧ n.sameSignature m = true ↔ n = e) ∧
          ∀ n, n ∈ t.allMethods c ∧ n.sameSignature m = true ↔ n = e) ∧
      ∀ i ∈ t.lineage.allInterfaces c, ∀ m ∈ (t.members i).methods, m.isDefault = true →
        (∃ e ∈ t.classMethods c, ∀ n, n ∈ t.allMethods c ∧ n.sameSignature m = true ↔ n = e) ∨
          ∃ e ∈ t.defaultMethods c, ∀ n, n ∈ t.allMethods c ∧ n.sameSignature m = true ↔ n = e := by
  have hentry {m e : Method} (he : e ∈ t.classMethods c) (hsame : e.sameSignature m = true)
      (n : Method) : n ∈ t.allMethods c ∧ n.sameSignature m = true ↔ n = e :=
    entry_unique (List.mem_append_left _ he) hsame
  refine ⟨t.pairwise_allMethods c, fun k hk m hm hpublic => ?_, fun i hi m hm hdefault => ?_⟩
  · obtain ⟨e, he, hsame⟩ := exists_mem_unhidden (mem_declared (·.isPublic) hk hm hpublic)
    refine ⟨e, fun n => ?_, hentry he hsame⟩
    rw [nearest_iff_mem_unhidden honce]
    refine ⟨fun ⟨hn, hnsame⟩ => ?_, ?_⟩
    · exact (hentry he hsame n).mp ⟨List.mem_append_left _ hn, hnsame⟩
    · rintro rfl
      exact ⟨he, hsame⟩
  · cases hown : (t.classMethods c).any (·.sameSignature m) with
    | false =>
      have hoffered : t.isOffered c m = true := by rw [isOffered, hdefault, hown]; rfl
      exact .inr (exists_default_entry hi hm hoffered)
    | true =>
      obtain ⟨e, he, hsame⟩ := List.any_eq_true.mp hown
      exact .inl ⟨e, he, hentry he hsame⟩

/-- A method with a body that gives its own name. -/
def namedMethod (name : String) : Declaration :=
  { name, body := some fun _ _ => .succeed (.text name) }

/-- An interface that provides `f`, `g` and `h`, a class with a public `f`, and one that extends it and
implements the interface, where `f` is private and `g` is abstract. -/
def layeredClasses : ClassTable :=
  .ofHost #[
    ⟨⟨"I", .interface, none, [], none⟩,
      .declare (.host 0) [namedMethod "f", namedMethod "g", namedMethod "h"] [] [] []⟩,
    ⟨⟨"B", .plain, some (.builtin .object), [], none⟩, .declare (.host 1) [namedMethod "f"] [] [] []⟩,
    ⟨⟨"C", .plain, some (.host 1), [.host 0], none⟩,
      .declare (.host 2) [{ namedMethod "f" with isPublic := false }, { name := "g" }] [] [] []⟩]

/-- The class keeps its abstract `g` and the public `f` of its superclass, and takes only `h`. -/
theorem layered_entries :
    (∀ k ∈ layeredClasses.lineage.ancestors (.host 2),
      (layeredClasses.members k).methods.Pairwise fun m n => m.sameSignature n = false) ∧
      ((layeredClasses.allMethods (.host 2)).Pairwise fun m n => m.sameSignature n = false) ∧
        (layeredClasses.allMethods (.host 2)).map (fun m => (m.name, m.id.owner)) =
          [("g", .host 2), ("f", .host 1), ("getClass", .builtin .object),
            ("toString", .builtin .object), ("equals", .builtin .object), ("h", .host 0)] := by
  have hancestors : layeredClasses.lineage.ancestors (.host 2) =
      [.host 2, .host 1, .builtin .object] := by cbv
  have hinterfaces : layeredClasses.lineage.allInterfaces (.host 2) = [.host 0] := by cbv
  have honce : ∀ k ∈ layeredClasses.lineage.ancestors (.host 2),
      (layeredClasses.members k).methods.Pairwise fun m n => m.sameSignature n = false := by
    rw [hancestors]
    decide
  refine ⟨honce, (one_entry_per_signature layeredClasses (.host 2) honce).1, ?_⟩
  rw [allMethods, defaultMethods, classMethods, hancestors, hinterfaces]
  rfl

end ClassTable

end ExprLang
