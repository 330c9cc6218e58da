import ExprLang.Proofs.BeanProperty.Writer
import ExprLang.Proofs.Bindings
import ExprLang.Proofs.Declared
import ExprLang.Proofs.Method.Table
import ExprLang.Proofs.Overload.Order
import Mathlib.Data.List.Induction
import Mathlib.Data.List.Sort

/-! The properties of a class are the same in whatever order its methods are declared, where these
can be told apart. -/

namespace ExprLang

/-! ## Accessors by what they serve for -/

namespace BeanProperties
variable {l : Lineage} {name : String} {role : Role} {m n : Method} {ms ns : List Method}

def Role.beginning : Role → String
  | .test => "is"
  | .reader => "get"
  | .writer => "set"

/-- How many arguments a method in this role takes. -/
def Role.arity : Role → Nat
  | .test | .reader => 0
  | .writer => 1

/-- The method has this role for the property of this name. -/
def serves (role : Role) (name : String) (m : Method) : Bool := role? m == some (role, name)

theorem toList_of_after? {beginning name : String} {rest : List Char}
    (h : after? beginning name = some rest) : name.toList = beginning.toList ++ rest := by
  unfold after? at h
  split at h
  · next hprefix =>
    cases h
    exact (List.prefix_iff_eq_append.mp (List.isPrefixOf_iff_prefix.mp hprefix)).symm
  · cases h

/-- The name of an accessor is made of its role and the name of its property, and its role says
how many arguments it takes. -/
structure Made (role : Role) (name : String) (m : Method) : Prop where
  arity : m.params.length = role.arity
  named : ∃ rest, m.name.toList = role.beginning.toList ++ rest ∧ propertyName? rest = some name

theorem made_of_rest {r : Role} {rest : List Char} {fits : Bool}
    (hrest : after? r.beginning m.name = some rest)
    (hfits : fits = true → m.params.length = r.arity)
    (h : (if fits then (propertyName? rest).map (r, ·) else none) = some (role, name)) :
    Made role name m := by
  split at h
  · next hfit =>
    obtain ⟨_, hname, hpair⟩ := Option.map_eq_some_iff.mp h
    cases hpair
    exact ⟨hfits hfit, rest, toList_of_after? hrest, hname⟩
  · cases h

theorem made_of_role? (h : role? m = some (role, name)) : Made role name m := by
  unfold role? at h
  split at h
  · cases h
  split at h
  · next hrest =>
    refine made_of_rest (r := .test) hrest (fun hfits => ?_) h
    rw [List.isEmpty_iff.mp (Bool.and_eq_true_iff.mp hfits).1]
    rfl
  split at h
  · next hrest =>
    refine made_of_rest (r := .reader) hrest (fun hfits => ?_) h
    rw [List.isEmpty_iff.mp hfits]
    rfl
  split at h
  · next hrest =>
    exact made_of_rest (r := .writer) hrest
      (fun hfits => beq_iff_eq.mp (Bool.and_eq_true_iff.mp hfits).1) h
  · cases h

/-! ## The scan -/

/-- The last methods of these in the two reading roles, and all writers. -/
def accessors (ms : List Method) (name : String) : Accessors where
  test := ms.reverse.find? (serves .test name)
  reader := ms.reverse.find? (serves .reader name)
  writers := ms.filter (serves .writer name)

theorem accessors_concat (h : role? m = some (role, name)) :
    accessors (ms ++ [m]) name = (accessors ms name).add m role := by
  cases role <;> simp [accessors, serves, h, Accessors.add]

theorem accessors_concat_of_ne (h : ∀ role, role? m ≠ some (role, name)) :
    accessors (ms ++ [m]) name = accessors ms name := by
  simp [accessors, serves, h]

theorem scan_concat (ms : List Method) (m : Method) :
    scan (ms ++ [m]) = match role? m with
      | some (role, name) => (scan ms).insert name ((((scan ms).find? name).getD {}).add m role)
      | none => scan ms := by
  rw [scan, List.foldl_append]
  rfl

/-- What the scan finds for a name. -/
theorem find?_scan (ms : List Method) (name : String) :
    ((scan ms).find? name).getD {} = accessors ms name := by
  induction ms using List.reverseRecOn with
  | nil => rfl
  | append_singleton ms m ih =>
    rw [scan_concat]
    cases hrole : role? m with
    | none =>
      rw [accessors_concat_of_ne (by simp [hrole])]
      exact ih
    | some found =>
      obtain ⟨role, other⟩ := found
      show (((scan ms).insert other _).find? name).getD {} = _
      rw [Bindings.find?_insert]
      by_cases hname : other = name
      · subst hname
        rw [if_pos rfl, accessors_concat hrole, ← ih]
        rfl
      · rw [if_neg hname, ih, accessors_concat_of_ne (by simp [hrole, hname])]

theorem scan_ordered (ms : List Method) : (scan ms).Ordered := by
  induction ms using List.reverseRecOn with
  | nil => exact .nil
  | append_singleton ms m ih =>
    rw [scan_concat]
    split
    · exact ih.insert _ _
    · exact ih

theorem ofMethods_ordered (l : Lineage) (ms : List Method) : (ofMethods l ms).Ordered := by
  refine List.Pairwise.filterMap _ (fun e d hed e' he' d' hd' => ?_) (scan_ordered ms)
  obtain ⟨_, -, rfl⟩ := Option.map_eq_some_iff.mp he'
  obtain ⟨_, -, rfl⟩ := Option.map_eq_some_iff.mp hd'
  exact hed

theorem toProperty?_nothing (l : Lineage) (name : String) :
    ({} : Accessors).toProperty? l name = none := by
  simp [Accessors.toProperty?, chooseWriter]

/-- The property of a name is made of the accessors for it. -/
theorem find?_ofMethods (l : Lineage) (ms : List Method) (name : String) :
    (ofMethods l ms).find? name = (accessors ms name).toProperty? l name := by
  have hfound : (ofMethods l ms).find? name =
      ((scan ms).find? name).bind fun a => a.toProperty? l name :=
    Bindings.find?_filterMap (scan_ordered ms).distinct (fun name a => a.toProperty? l name) name
  rw [hfound, ← find?_scan]
  cases (scan ms).find? name with
  | none => exact (toProperty?_nothing l name).symm
  | some a => rfl

/-! ## Names of properties -/

/-- The name has no character but those of ASCII. -/
def Ascii (cs : List Char) : Prop := ∀ c ∈ cs, c.toNat < 128

instance (cs : List Char) : Decidable (Ascii cs) :=
  List.decidableBAll (fun c : Char => c.toNat < 128) cs

/-- The small letter of a capital in ASCII stands 32 places after it, and is no capital. -/
theorem lower_of_isUpper {c : Char} (hc : c.toNat < 128) (h : isUpper c = true) :
    Casing.lower c = [Char.ofNat (c.toNat + 32)] ∧ isUpper (Char.ofNat (c.toNat + 32)) = false ∧
      (Char.ofNat (c.toNat + 32)).toNat = c.toNat + 32 := by
  have hall : ∀ n : Fin 128, isUpper (Char.ofNat n) = true →
      Casing.lower (Char.ofNat n) = [Char.ofNat (n + 32)] ∧ isUpper (Char.ofNat (n + 32)) = false ∧
        (Char.ofNat (n + 32)).toNat = n + 32 := by
    decide +kernel
  have hself : Char.ofNat c.toNat = c := Char.ofNat_toNat c
  have hcase := hall ⟨c.toNat, hc⟩
  simp only [hself] at hcase
  exact hcase h

/-- What a name of a property was made of: it begins with two capitals, or with the small letter
of its capital. -/
theorem propertyName?_cases {cs : List Char} (hcs : Ascii cs) (h : propertyName? cs = some name) :
    ∃ c rest, cs = c :: rest ∧ isUpper c = true ∧
      (name.toList = cs ∨ name.toList = Char.ofNat (c.toNat + 32) :: rest) := by
  cases cs with
  | nil => cases h
  | cons c rest =>
    rw [propertyName?] at h
    split at h
    · cases h
    next hupper =>
    have hupper : isUpper c = true := by simpa using hupper
    refine ⟨c, rest, rfl, hupper, ?_⟩
    split at h
    · cases h
      exact .inl String.toList_ofList
    · cases h
      rw [(lower_of_isUpper (hcs c List.mem_cons_self) hupper).1]
      exact .inr String.toList_ofList

/-- In ASCII no two texts give the same name. -/
theorem propertyName?_injective {cs ds : List Char} (hcs : Ascii cs) (hds : Ascii ds)
    (hc : propertyName? cs = some name) (hd : propertyName? ds = some name) : cs = ds := by
  obtain ⟨c, cs, rfl, hcupper, hcname⟩ := propertyName?_cases hcs hc
  obtain ⟨d, ds, rfl, hdupper, hdname⟩ := propertyName?_cases hds hd
  obtain ⟨-, hcsmall, hcplace⟩ := lower_of_isUpper (hcs c List.mem_cons_self) hcupper
  obtain ⟨-, hdsmall, hdplace⟩ := lower_of_isUpper (hds d List.mem_cons_self) hdupper
  rcases hcname with hcname | hcname <;> rcases hdname with hdname | hdname <;>
    rw [hcname] at hdname
  · exact hdname
  · obtain ⟨rfl, -⟩ := List.cons.inj hdname
    rw [hcupper] at hdsmall
    cases hdsmall
  · obtain ⟨rfl, -⟩ := List.cons.inj hdname
    rw [hdupper] at hcsmall
    cases hcsmall
  · obtain ⟨hfirst, rfl⟩ := List.cons.inj hdname
    have hplace := congrArg Char.toNat hfirst
    rw [hcplace, hdplace] at hplace
    obtain rfl : c = d := Char.toNat_inj.mp (by omega)
    rfl

/-! ## Methods that can be told apart -/

/-- Methods of names in ASCII and of different signatures, where types of parameters are told
apart by their names. -/
structure Apart (l : Lineage) (ms : List Method) : Prop where
  ascii : ∀ m ∈ ms, Ascii m.name.toList
  signatures : ms.Pairwise fun m n => m.sameSignature n = false
  types : ∀ m ∈ ms, ∀ n ∈ ms, ∀ a ∈ m.params, ∀ b ∈ n.params, l.typeName a = l.typeName b → a = b

namespace Apart

theorem name_eq (h : Apart l ms) (hm : m ∈ ms) (hn : n ∈ ms) (hmrole : Made role name m)
    (hnrole : Made role name n) : m.name = n.name := by
  obtain ⟨-, rest, hmname, hrest⟩ := hmrole
  obtain ⟨-, rest', hnname, hrest'⟩ := hnrole
  have hmascii := h.ascii m hm
  have hnascii := h.ascii n hn
  rw [hmname] at hmascii
  rw [hnname] at hnascii
  have hsame : rest = rest' :=
    propertyName?_injective (fun c hc => hmascii c (List.mem_append_right _ hc))
      (fun c hc => hnascii c (List.mem_append_right _ hc)) hrest hrest'
  rw [← String.toList_inj, hmname, hnname, hsame]

theorem eq_of_params (h : Apart l ms) (hm : m ∈ ms) (hn : n ∈ ms) (hmrole : Made role name m)
    (hnrole : Made role name n) (hparams : m.params = n.params) : m = n :=
  Method.eq_of_sameSignature h.signatures hm hn
    (Method.sameSignature_iff.mpr ⟨h.name_eq hm hn hmrole hnrole, hparams⟩)

end Apart

theorem made_of_serves (h : serves role name m = true) : Made role name m :=
  made_of_role? (eq_of_beq h)

/-- There is one method for a reading role. -/
theorem Apart.eq_of_reads (h : Apart l ms) (hrole : role.arity = 0) (hm : m ∈ ms) (hn : n ∈ ms)
    (hmserves : serves role name m = true) (hnserves : serves role name n = true) : m = n := by
  have hmrole := made_of_serves hmserves
  have hnrole := made_of_serves hnserves
  refine h.eq_of_params hm hn hmrole hnrole ?_
  rw [List.eq_nil_of_length_eq_zero (hmrole.arity.trans hrole),
    List.eq_nil_of_length_eq_zero (hnrole.arity.trans hrole)]

/-- What a writer takes is its only parameter. -/
theorem params_of_writer (h : Made .writer name m) : m.params = [written m] := by
  obtain ⟨t, ht⟩ := List.length_eq_one_iff.mp h.arity
  rw [written, ht]
  rfl

/-- The writers of a property take types of different names. -/
theorem Apart.eq_of_written (h : Apart l ms) (hm : m ∈ (accessors ms name).writers)
    (hn : n ∈ (accessors ms name).writers)
    (htype : l.typeName (written m) = l.typeName (written n)) : m = n := by
  obtain ⟨hm, hmserves⟩ := List.mem_filter.mp hm
  obtain ⟨hn, hnserves⟩ := List.mem_filter.mp hn
  have hmrole := made_of_serves hmserves
  have hnrole := made_of_serves hnserves
  have hmparams := params_of_writer hmrole
  have hnparams := params_of_writer hnrole
  refine h.eq_of_params hm hn hmrole hnrole ?_
  rw [hmparams, hnparams, h.types m hm n hn (written m) (hmparams ▸ List.mem_singleton_self _)
    (written n) (hnparams ▸ List.mem_singleton_self _) htype]

/-! ## The order of the methods -/

/-- Writers of types with different names are chosen in any order. -/
theorem chooseWriter_perm {read : Option TypeRef} (hperm : ms.Perm ns)
    (hone : ∀ m ∈ ms, ∀ n ∈ ms, l.typeName (written m) = l.typeName (written n) → m = n) :
    chooseWriter l read ms = chooseWriter l read ns := by
  have hordered : ordered l ms = ordered l ns := by
    have hsorted (ks : List Method) :
        (ordered l ks).Pairwise fun m n => l.typeName (written m) ≤ l.typeName (written n) := by
      refine (List.pairwise_mergeSort (fun _ _ _ => ?_) (fun _ _ => ?_) ks).imp of_decide_eq_true
      · simpa using le_trans
      · simpa using le_total _ _
    refine List.Perm.eq_of_pairwise (fun m n hm hn hmn hnm => ?_) (hsorted ms) (hsorted ns) ?_
    · exact hone m (mem_ordered.mp hm) n (hperm.mem_iff.mpr (mem_ordered.mp hn))
        (le_antisymm hmn hnm)
    · exact (List.mergeSort_perm ms _).trans (hperm.trans (List.mergeSort_perm ns _).symm)
  have hexact (t : TypeRef) :
      (ms.find? fun m => written m == t) = ns.find? fun m => written m == t := by
    refine (find?_perm hperm.symm fun m hm n hn hmt hnt => hone m hm n hn ?_).symm
    rw [eq_of_beq hmt, eq_of_beq hnt]
  simp only [chooseWriter_eq, wanted, hordered, hexact]

/-- Methods that can be told apart make the same property in any order. -/
theorem toProperty?_perm (h : Apart l ms) (hperm : ms.Perm ns) :
    (accessors ms name).toProperty? l name = (accessors ns name).toProperty? l name := by
  have hreads {role : Role} (hrole : role.arity = 0) :
      ms.reverse.find? (serves role name) = ns.reverse.find? (serves role name) := by
    refine (find?_perm ((ns.reverse_perm.trans hperm.symm).trans ms.reverse_perm.symm) ?_).symm
    intro m hm n hn
    exact h.eq_of_reads hrole (List.mem_reverse.mp hm) (List.mem_reverse.mp hn)
  have htest : (accessors ms name).test = (accessors ns name).test := hreads rfl
  have hreader : (accessors ms name).reader = (accessors ns name).reader := hreads rfl
  have hwriter (read : Option TypeRef) : chooseWriter l read (accessors ms name).writers =
      chooseWriter l read (accessors ns name).writers :=
    chooseWriter_perm (hperm.filter _) fun m hm n hn => h.eq_of_written hm hn
  simp only [Accessors.toProperty?, htest, hreader, hwriter]

end BeanProperties

/-! ## Methods without their places -/

/-- A method without the place that its declaration has among those of its class. -/
def Method.unplaced (m : Method) : Method := { m with id := { m.id with index := 0 } }

theorem Method.sameSignature_of_unplaced {m n m' n' : Method} (hm : m.unplaced = m'.unplaced)
    (hn : n.unplaced = n'.unplaced) : m.sameSignature n = m'.sameSignature n' := by
  have hplace (k k' : Method) : k.sameSignature k' = k.unplaced.sameSignature k'.unplaced := rfl
  rw [hplace, hm, hn, ← hplace]

def BeanProperty.unplaced (p : BeanProperty) : BeanProperty :=
  { p with reader := p.reader.map Method.unplaced, writer := p.writer.map Method.unplaced }

namespace BeanProperties
variable {l : Lineage} {name : String} {ms ns : List Method}

def unplaced (p : BeanProperties) : BeanProperties :=
  { p with properties := p.properties.map fun e => (e.1, e.2.unplaced) }

def Accessors.unplaced (a : Accessors) : Accessors where
  test := a.test.map Method.unplaced
  reader := a.reader.map Method.unplaced
  writers := a.writers.map Method.unplaced

theorem accessors_unplaced (ms : List Method) (name : String) :
    accessors (ms.map Method.unplaced) name = (accessors ms name).unplaced := by
  have hserves (role : Role) : serves role name ∘ Method.unplaced = serves role name := rfl
  simp only [accessors, Accessors.unplaced, ← List.map_reverse, List.find?_map, List.filter_map,
    hserves]

theorem narrowest_unplaced (l : Lineage) (t : TypeRef) (chosen : Option Method) (ms : List Method) :
    narrowest l t (chosen.map Method.unplaced) (ms.map Method.unplaced) =
      (narrowest l t chosen ms).map Method.unplaced := by
  induction ms generalizing t chosen with
  | nil => rfl
  | cons m ms ih =>
    have hwritten : written m.unplaced = written m := rfl
    rw [List.map_cons, narrowest, narrowest, hwritten]
    split
    · exact ih (written m) (some m)
    · exact ih t chosen

theorem ordered_unplaced (l : Lineage) (ms : List Method) :
    ordered l (ms.map Method.unplaced) = (ordered l ms).map Method.unplaced :=
  (List.map_mergeSort (f := Method.unplaced) fun _ _ _ _ => rfl).symm

theorem chooseWriter_unplaced (l : Lineage) (read : Option TypeRef) (ms : List Method) :
    chooseWriter l read (ms.map Method.unplaced) =
      (chooseWriter l read ms).map Method.unplaced := by
  have hwritten : written ∘ Method.unplaced = written := rfl
  have hwanted : wanted l read (ms.map Method.unplaced) = wanted l read ms := by
    rw [wanted, ordered_unplaced, List.head?_map, Option.map_map, hwritten]
    rfl
  have hexact (t : TypeRef) : ((ms.map Method.unplaced).find? fun m => written m == t) =
      (ms.find? fun m => written m == t).map Method.unplaced := List.find?_map
  have hnarrowest (t : TypeRef) : narrowest l t none ((ordered l ms).map Method.unplaced) =
      (narrowest l t none (ordered l ms)).map Method.unplaced := narrowest_unplaced l t none _
  simp only [chooseWriter_eq, hwanted, hexact, ordered_unplaced, hnarrowest, Option.map_or,
    Option.map_bind, Function.comp_def]

theorem toProperty?_unplaced (l : Lineage) (name : String) (a : Accessors) :
    a.unplaced.toProperty? l name = (a.toProperty? l name).map BeanProperty.unplaced := by
  have hreader : a.unplaced.test.or a.unplaced.reader = (a.test.or a.reader).map Method.unplaced :=
    Option.map_or.symm
  have hreturns : (fun m : Method => m.returns) ∘ Method.unplaced = fun m => m.returns := rfl
  have hwritten : written ∘ Method.unplaced = written := rfl
  have hwriter (read : Option TypeRef) : chooseWriter l read a.unplaced.writers =
      (chooseWriter l read a.writers).map Method.unplaced := chooseWriter_unplaced l read a.writers
  simp only [Accessors.toProperty?, hreader, hwriter, Option.map_map, hreturns, hwritten]
  rfl

/-- Methods that can be told apart make the same properties in any order and at any places. -/
theorem find?_ofMethods_reordered (h : Apart l (ms.map Method.unplaced))
    (hperm : (ms.map Method.unplaced).Perm (ns.map Method.unplaced)) :
    ((ofMethods l ms).find? name).map BeanProperty.unplaced =
      ((ofMethods l ns).find? name).map BeanProperty.unplaced := by
  have hproperty (ks : List Method) : ((ofMethods l ks).find? name).map BeanProperty.unplaced =
      (accessors (ks.map Method.unplaced) name).toProperty? l name := by
    rw [find?_ofMethods, accessors_unplaced, toProperty?_unplaced]
  rw [hproperty, hproperty, toProperty?_perm h hperm]

theorem Apart.unplaced (h : Apart l ms) : Apart l (ms.map Method.unplaced) where
  ascii := by
    simp only [List.forall_mem_map]
    exact h.ascii
  signatures := List.pairwise_map.mpr h.signatures
  types := by
    simp only [List.forall_mem_map]
    exact h.types

end BeanProperties

/-! ## Tables in another order -/

namespace ClassTable
variable {t t' : ClassTable} {c : ClassId} {ks : List ClassId} {test test' : Method → Bool}
  {m e : Method}

/-- The classes whose methods a class may offer. -/
def sources (t : ClassTable) (c : ClassId) : List ClassId :=
  t.lineage.ancestors c ++ t.lineage.allInterfaces c

/-- Names of methods are in ASCII, no class declares a signature twice, and types of parameters
are told apart by their names. -/
structure Legible (t : ClassTable) (ks : List ClassId) : Prop where
  ascii : ∀ k ∈ ks, ∀ m ∈ (t.members k).methods, BeanProperties.Ascii m.name.toList
  once : ∀ k ∈ ks, (t.members k).methods.Pairwise fun m n => m.sameSignature n = false
  types : ∀ k ∈ ks, ∀ m ∈ (t.members k).methods, ∀ j ∈ ks, ∀ n ∈ (t.members j).methods,
    ∀ a ∈ m.params, ∀ b ∈ n.params, t.lineage.typeName a = t.lineage.typeName b → a = b

/-- The same classes, where each declares the same methods in any order. -/
structure Reordered (t : ClassTable) (ks : List ClassId) (t' : ClassTable) : Prop where
  lineage : t'.lineage = t.lineage
  methods : ∀ k ∈ ks, ((t.members k).methods.map Method.unplaced).Perm
    ((t'.members k).methods.map Method.unplaced)

theorem Reordered.symm (h : t.Reordered ks t') : t'.Reordered ks t :=
  ⟨h.lineage.symm, fun k hk => (h.methods k hk).symm⟩

theorem Reordered.mono {js : List ClassId} (h : t.Reordered ks t') (hjs : js ⊆ ks) :
    t.Reordered js t' :=
  ⟨h.lineage, fun k hk => h.methods k (hjs hk)⟩

theorem Legible.mono {js : List ClassId} (h : t.Legible ks) (hjs : js ⊆ ks) : t.Legible js where
  ascii k hk := h.ascii k (hjs hk)
  once k hk := h.once k (hjs hk)
  types k hk m hm j hj := h.types k (hjs hk) m hm j (hjs hj)

theorem Reordered.mem {k : ClassId} (h : t.Reordered ks t') (hk : k ∈ ks)
    (hm : m ∈ (t.members k).methods) :
    ∃ n ∈ (t'.members k).methods, n.unplaced = m.unplaced :=
  List.mem_map.mp ((h.methods k hk).mem_iff.mp (List.mem_map_of_mem hm))

theorem Reordered.once (h : t.Reordered ks t')
    (honce : ∀ k ∈ ks, (t.members k).methods.Pairwise fun m n => m.sameSignature n = false) :
    ∀ k ∈ ks, (t'.members k).methods.Pairwise fun m n => m.sameSignature n = false := by
  intro k hk
  have hplaced : ((t.members k).methods.map Method.unplaced).Pairwise
      fun m n => m.sameSignature n = false := List.pairwise_map.mpr (honce k hk)
  have hsymm {m n : Method} (hmn : m.sameSignature n = false) : n.sameSignature m = false :=
    (n.sameSignature_comm m).trans hmn
  exact List.pairwise_map.mp (((h.methods k hk).pairwise_iff hsymm).mp hplaced)

/-- A declaration is the nearest of its signature in any order of the declarations of each class. -/
theorem Nearest.reordered (h : t.Reordered ks t')
    (htest : ∀ m n, m.unplaced = n.unplaced → test m = test' n) (he : t.Nearest ks test e) :
    ∃ e', t'.Nearest ks test' e' ∧ e'.unplaced = e.unplaced := by
  obtain ⟨before, k, after, rfl, hmem, hpass, hbefore⟩ := he
  obtain ⟨e', hmem', hsame⟩ := h.mem (List.mem_append_right before List.mem_cons_self) hmem
  refine ⟨e', ⟨before, k, after, rfl, hmem', ?_, fun j hj n hn hpass' => ?_⟩, hsame⟩
  · rw [← htest e e' hsame.symm]
    exact hpass
  · obtain ⟨n', hn', hsame'⟩ := h.symm.mem (List.mem_append_left _ hj) hn
    rw [← htest n' n hsame'] at hpass'
    rw [Method.sameSignature_of_unplaced hsame'.symm hsame]
    exact hbefore j hj n' hn' hpass'

/-- What is kept of the declarations is the same but for the order. -/
theorem unhidden_reordered (h : t.Reordered ks t')
    (honce : ∀ k ∈ ks, (t.members k).methods.Pairwise fun m n => m.sameSignature n = false)
    (htest : ∀ m n, m.unplaced = n.unplaced → test m = test' n) :
    ((unhidden ((ks.flatMap fun k => (t.members k).methods).filter test)).map Method.unplaced).Perm
      ((unhidden ((ks.flatMap fun k => (t'.members k).methods).filter test')).map
        Method.unplaced) := by
  have hnodup (ms : List Method) : ((unhidden ms).map Method.unplaced).Nodup := by
    refine List.pairwise_map.mpr ((pairwise_unhidden ms).imp fun {m n} hmn heq => ?_)
    rw [Method.sameSignature_of_unplaced rfl heq.symm, m.sameSignature_refl] at hmn
    cases hmn
  refine (List.perm_ext_iff_of_nodup (hnodup _) (hnodup _)).mpr fun u => ?_
  simp only [List.mem_map, ← nearest_iff_mem_unhidden honce,
    ← nearest_iff_mem_unhidden (h.once honce)]
  constructor
  · rintro ⟨e, he, rfl⟩
    exact he.reordered h htest
  · rintro ⟨e, he, rfl⟩
    exact he.reordered h.symm fun m n hmn => (htest n m hmn.symm).symm

theorem any_sameSignature_unplaced (ms : List Method) (m : Method) :
    ms.any (·.sameSignature m) = (ms.map Method.unplaced).any (·.sameSignature m.unplaced) := by
  rw [List.any_map]
  rfl

theorem classMethods_reordered (h : t.Reordered (t.lineage.ancestors c) t')
    (honce : ∀ k ∈ t.lineage.ancestors c,
      (t.members k).methods.Pairwise fun m n => m.sameSignature n = false) :
    ((t.classMethods c).map Method.unplaced).Perm ((t'.classMethods c).map Method.unplaced) := by
  rw [classMethods, classMethods, h.lineage]
  refine unhidden_reordered h honce fun m n hmn => ?_
  have hpublic : m.unplaced.isPublic = n.unplaced.isPublic := by rw [hmn]
  exact hpublic

theorem isOffered_reordered
    (h : ((t.classMethods c).map Method.unplaced).Perm ((t'.classMethods c).map Method.unplaced))
    {n : Method} (hmn : m.unplaced = n.unplaced) : t.isOffered c m = t'.isOffered c n := by
  have hdefault : m.unplaced.isDefault = n.unplaced.isDefault := by rw [hmn]
  have hown : (t.classMethods c).any (·.sameSignature m) =
      (t'.classMethods c).any (·.sameSignature n) := by
    rw [any_sameSignature_unplaced, any_sameSignature_unplaced (t'.classMethods c), hmn, h.any_eq]
  rw [isOffered, isOffered, hown]
  exact congrArg (· && _) hdefault

theorem defaultMethods_reordered (h : t.Reordered (t.sources c) t') (ht : t.Legible (t.sources c)) :
    ((t.defaultMethods c).map Method.unplaced).Perm
      ((t'.defaultMethods c).map Method.unplaced) := by
  have hown := classMethods_reordered (h.mono (List.subset_append_left _ _))
    (ht.mono (List.subset_append_left _ _)).once
  have hinterfaces : t.lineage.allInterfaces c ⊆ t.sources c := List.subset_append_right _ _
  rw [defaultMethods_eq, defaultMethods_eq, h.lineage]
  exact unhidden_reordered (h.mono hinterfaces) (ht.mono hinterfaces).once
    fun m n => isOffered_reordered hown

/-- What a class offers can be told apart. -/
theorem apart_unhidden (ht : t.Legible ks) :
    BeanProperties.Apart t.lineage
      (unhidden ((ks.flatMap fun k => (t.members k).methods).filter test)) := by
  have hdeclared {m : Method}
      (hm : m ∈ unhidden ((ks.flatMap fun k => (t.members k).methods).filter test)) :
      ∃ k ∈ ks, m ∈ (t.members k).methods :=
    List.mem_flatMap.mp (List.mem_filter.mp (mem_of_mem_unhidden hm)).1
  refine ⟨fun m hm => ?_, pairwise_unhidden _, fun m hm n hn => ?_⟩
  · obtain ⟨k, hk, hm⟩ := hdeclared hm
    exact ht.ascii k hk m hm
  · obtain ⟨k, hk, hm⟩ := hdeclared hm
    obtain ⟨j, hj, hn⟩ := hdeclared hn
    exact ht.types k hk m hm j hj n hn

theorem Legible.classMethods_apart (ht : t.Legible (t.sources c)) :
    BeanProperties.Apart t.lineage (t.classMethods c) :=
  apart_unhidden (ht.mono (List.subset_append_left _ _))

theorem Legible.defaultMethods_apart (ht : t.Legible (t.sources c)) :
    BeanProperties.Apart t.lineage (t.defaultMethods c) :=
  apart_unhidden (ht.mono (List.subset_append_right _ _))

end ClassTable

/-! ## The properties of a class -/

namespace BeanProperties
variable {t t' : ClassTable} {c : ClassId} {l : Lineage} {name : String} {role : Role}
  {m : Method} {ms : List Method}

theorem ofClass_ordered (t : ClassTable) (c : ClassId) : (ofClass t c).properties.Ordered :=
  (ofMethods_ordered _ _).override _

/-- A property of the methods of a class takes precedence over one that interfaces provide. -/
theorem find?_ofClass (t : ClassTable) (c : ClassId) (name : String) :
    (ofClass t c).find? name = ((ofMethods t.lineage (t.classMethods c)).find? name).or
      ((ofMethods t.lineage (t.defaultMethods c)).find? name) :=
  Bindings.find?_override (ofMethods_ordered _ _).distinct

theorem ofMethods_of_test (h : Apart l ms) (hm : m ∈ ms) (hrole : role? m = some (.test, name)) :
    ∃ p, (ofMethods l ms).find? name = some p ∧ p.reader = some m := by
  have hserves : serves .test name m = true := beq_iff_eq.mpr hrole
  obtain ⟨n, hn⟩ := Option.isSome_iff_exists.mp
    (List.find?_isSome.mpr ⟨m, List.mem_reverse.mpr hm, hserves⟩)
  have hnm : n = m := h.eq_of_reads (by rfl)
    (List.mem_reverse.mp (List.mem_of_find?_eq_some hn)) hm (List.find?_some hn) hserves
  subst hnm
  have htest : (accessors ms name).test = some n := hn
  rw [find?_ofMethods, Accessors.toProperty?, htest]
  exact ⟨_, rfl, rfl⟩

theorem isSome_narrowest {t : TypeRef} {chosen : Option Method}
    (h : chosen.isSome = true ∨ ∃ m ∈ ms, l.assignable t (written m) = true) :
    (narrowest l t chosen ms).isSome = true := by
  induction ms generalizing t chosen with
  | nil =>
    rcases h with h | ⟨m, hm, -⟩
    · exact h
    · cases hm
  | cons m ms ih =>
    rw [narrowest]
    split
    · exact ih (.inl rfl)
    · next hm =>
      refine ih (h.imp_right ?_)
      rintro ⟨n, hn, htn⟩
      rcases List.mem_cons.mp hn with rfl | hn
      · exact absurd htn hm
      · exact ⟨n, hn, htn⟩

/-- Where nothing is read, one of the writers is chosen if there is any. -/
theorem isSome_chooseWriter {writers : List Method} :
    (chooseWriter l none writers).isSome = true ↔ writers ≠ [] := by
  constructor
  · rintro h rfl
    obtain ⟨m, hm⟩ := Option.isSome_iff_exists.mp h
    cases mem_of_chooseWriter hm
  · intro h
    obtain ⟨m, hm, hwanted⟩ := exists_wanted (l := l) h
    rw [chooseWriter_of_not_read fun _ _ => (Option.some_ne_none _).symm, hwanted]
    exact isSome_narrowest (.inr ⟨m, mem_ordered.mpr hm, l.assignable_self _⟩)

/-- There is a property of a name just where one of the methods is an accessor for it. -/
theorem isSome_ofMethods :
    ((ofMethods l ms).find? name).isSome = true ↔
      ∃ m ∈ ms, ∃ role, role? m = some (role, name) := by
  have hserves (role : Role) (m : Method) :
      serves role name m = true ↔ role? m = some (role, name) := beq_iff_eq
  rw [find?_ofMethods, Accessors.toProperty?, Option.isSome_map]
  cases hreader : (accessors ms name).test.or (accessors ms name).reader with
  | some m =>
    refine ⟨fun _ => ?_, fun _ => rfl⟩
    rcases Option.or_eq_some_iff.mp hreader with hfound | ⟨-, hfound⟩ <;>
      exact ⟨m, List.mem_reverse.mp (List.mem_of_find?_eq_some hfound), _,
        (hserves _ m).mp (List.find?_some hfound)⟩
  | none =>
    obtain ⟨htest, hreads⟩ := Option.or_eq_none_iff.mp hreader
    simp only [Option.map_none, Option.none_or, Option.isSome_map, isSome_chooseWriter]
    constructor
    · intro hne
      obtain ⟨m, hm⟩ := List.exists_mem_of_ne_nil _ hne
      obtain ⟨hm, hrole⟩ := List.mem_filter.mp hm
      exact ⟨m, hm, .writer, (hserves _ m).mp hrole⟩
    · rintro ⟨m, hm, role, hrole⟩
      rw [← hserves] at hrole
      have hmem := List.mem_reverse.mpr hm
      cases role with
      | test => exact absurd hrole (List.find?_eq_none.mp htest m hmem)
      | reader => exact absurd hrole (List.find?_eq_none.mp hreads m hmem)
      | writer => exact List.ne_nil_of_mem (List.mem_filter.mpr ⟨hm, hrole⟩)

theorem find?_ofClass_reordered (ht : t.Legible (t.sources c)) (h : t.Reordered (t.sources c) t') :
    ((ofClass t c).find? name).map BeanProperty.unplaced =
      ((ofClass t' c).find? name).map BeanProperty.unplaced := by
  have hown := ClassTable.classMethods_reordered (h.mono (List.subset_append_left _ _))
    (ht.mono (List.subset_append_left _ _)).once
  rw [find?_ofClass, find?_ofClass, Option.map_or, Option.map_or, h.lineage,
    find?_ofMethods_reordered ht.classMethods_apart.unplaced hown,
    find?_ofMethods_reordered ht.defaultMethods_apart.unplaced
      (ClassTable.defaultMethods_reordered h ht)]

theorem find?_unplaced (p : BeanProperties) (name : String) :
    p.unplaced.find? name = (p.find? name).map BeanProperty.unplaced :=
  Bindings.find?_map _ _ _

/-- Properties in order are the same where they are the same for every name. -/
theorem unplaced_eq_of_find? {p q : BeanProperties} (howner : p.owner = q.owner)
    (hp : p.properties.Ordered) (hq : q.properties.Ordered)
    (h : ∀ name, (p.find? name).map BeanProperty.unplaced =
      (q.find? name).map BeanProperty.unplaced) : p.unplaced = q.unplaced := by
  have hordered {b : Bindings BeanProperty} (hb : b.Ordered) :
      Bindings.Ordered (b.map fun e => (e.1, e.2.unplaced)) := List.pairwise_map.mpr hb
  have hproperties : p.unplaced.properties = q.unplaced.properties := by
    refine Bindings.eq_of_find? (hordered hp) (hordered hq) fun name => ?_
    exact (find?_unplaced p name).trans ((h name).trans (find?_unplaced q name).symm)
  show BeanProperties.mk p.owner p.unplaced.properties = ⟨q.owner, q.unplaced.properties⟩
  rw [howner, hproperties]

/-- The properties of a class do not depend on the order in which it, its ancestors and their
interfaces declare their methods. Among the methods of the class and among those that interfaces
provide, a reader of a truth value takes precedence over other readers; but the latter are asked
only for names for which the class has no accessor. -/
theorem properties_order_free (t t' : ClassTable) (c : ClassId) (ht : t.Legible (t.sources c))
    (h : t.Reordered (t.sources c) t') :
    (ofClass t' c).unplaced = (ofClass t c).unplaced ∧
      (∀ m ∈ t.classMethods c, ∀ name, role? m = some (.test, name) →
        ∃ p, (ofClass t c).find? name = some p ∧ p.reader = some m) ∧
      (∀ m ∈ t.defaultMethods c, ∀ name, role? m = some (.test, name) →
        (∀ n ∈ t.classMethods c, ∀ role, role? n ≠ some (role, name)) →
          ∃ p, (ofClass t c).find? name = some p ∧ p.reader = some m) ∧
      (∀ m ∈ t.classMethods c, ∀ role name, role? m = some (role, name) →
        ∃ p, (ofClass t c).find? name = some p ∧
          ∀ n, p.reader = some n ∨ p.writer = some n → n ∈ t.classMethods c) := by
  refine ⟨?_, fun m hm name hrole => ?_, fun m hm name hrole hno => ?_,
    fun m hm role name hrole => ?_⟩
  · exact unplaced_eq_of_find? rfl (ofClass_ordered t' c) (ofClass_ordered t c)
      fun name => (find?_ofClass_reordered ht h).symm
  · obtain ⟨p, hp, hreader⟩ := ofMethods_of_test ht.classMethods_apart hm hrole
    exact ⟨p, by rw [find?_ofClass, hp, Option.some_or], hreader⟩
  · obtain ⟨p, hp, hreader⟩ := ofMethods_of_test ht.defaultMethods_apart hm hrole
    have hnone : (ofMethods t.lineage (t.classMethods c)).find? name = none := by
      rw [← Option.not_isSome_iff_eq_none, isSome_ofMethods]
      rintro ⟨n, hn, role, hnrole⟩
      exact hno n hn role hnrole
    exact ⟨p, by rw [find?_ofClass, hnone, Option.none_or, hp], hreader⟩
  · obtain ⟨p, hp⟩ := Option.isSome_iff_exists.mp
      (isSome_ofMethods (l := t.lineage).mpr ⟨m, hm, role, hrole⟩)
    refine ⟨p, by rw [find?_ofClass, hp, Option.some_or], fun n hn => ?_⟩
    have hfrom := ofMethods_from _ _ _ (Bindings.mem_of_find? hp)
    rcases hn with hn | hn
    · exact (hfrom.reader n hn).1
    · exact (hfrom.writer n hn).1

theorem map_unplaced_place (owner : ClassId) (isConstructor : Bool) (ds : List Declaration) :
    (ClassMembers.place owner isConstructor ds).map Method.unplaced =
      ds.map fun d => ⟨d, ⟨owner, isConstructor, 0⟩⟩ := by
  have hplace : Method.unplaced ∘ (fun p => (⟨p.1, ⟨owner, isConstructor, p.2⟩⟩ : Method)) =
      (fun d => ⟨d, ⟨owner, isConstructor, 0⟩⟩) ∘ Prod.fst := rfl
  rw [ClassMembers.place, List.map_map, hplace, ← List.map_map, List.zipIdx_map_fst]

/-- An interface that provides methods, and a class with others that implements it. -/
def implementing (provided own : List Declaration) : ClassTable :=
  .ofHost #[
    ⟨⟨"I", .interface, none, [], none⟩, .declare (.host 0) provided [] [] []⟩,
    ⟨⟨"C", .plain, some (.builtin .object), [.host 0], none⟩, .declare (.host 1) own [] [] []⟩]

theorem lineage_implementing (provided own : List Declaration) :
    (implementing provided own).lineage = ⟨#[⟨"I", .interface, none, [], none⟩,
      ⟨"C", .plain, some (.builtin .object), [.host 0], none⟩]⟩ := by
  simp [implementing, ClassTable.ofHost]

theorem ancestors_implementing (provided own : List Declaration) :
    (implementing provided own).lineage.ancestors (.host 1) = [.host 1, .builtin .object] := by
  rw [lineage_implementing]
  exact Lineage.ancestors_below_object rfl

theorem allInterfaces_implementing (provided own : List Declaration) :
    (implementing provided own).lineage.allInterfaces (.host 1) = [.host 0] := by
  rw [lineage_implementing]
  cbv

theorem sources_implementing (provided own : List Declaration) :
    (implementing provided own).sources (.host 1) = [.host 1, .builtin .object, .host 0] := by
  rw [ClassTable.sources, ancestors_implementing, allInterfaces_implementing]
  rfl

theorem reordered_implementing {provided own provided' own' : List Declaration}
    (hprovided : provided.Perm provided') (hown : own.Perm own') :
    (implementing provided own).Reordered ((implementing provided own).sources (.host 1))
      (implementing provided' own') := by
  refine ⟨by rw [lineage_implementing, lineage_implementing], fun k hk => ?_⟩
  rw [sources_implementing] at hk
  simp only [List.mem_cons, List.not_mem_nil, or_false] at hk
  rcases hk with rfl | rfl | rfl
  · show ((ClassMembers.place _ _ own).map _).Perm ((ClassMembers.place _ _ own').map _)
    rw [map_unplaced_place, map_unplaced_place]
    exact hown.map _
  · exact .refl _
  · show ((ClassMembers.place _ _ provided).map _).Perm ((ClassMembers.place _ _ provided').map _)
    rw [map_unplaced_place, map_unplaced_place]
    exact hprovided.map _

/-- A method with a body that tells the truth. -/
def truth (name : String) : Declaration :=
  { ClassTable.namedMethod name with returns := .primitive .boolean }

/-- A class that reads and writes a value in several ways, and an interface that tests and reads
the same value and another one. -/
def valueClasses : ClassTable :=
  implementing [truth "isX", truth "isY", ClassTable.namedMethod "getY"]
    [{ name := "setX", fixed := [.string], returns := .void }, ClassTable.namedMethod "getX",
      { name := "setX", fixed := [.object], returns := .void }]

theorem legible_valueClasses : valueClasses.Legible (valueClasses.sources (.host 1)) := by
  rw [valueClasses, sources_implementing]
  exact ⟨by decide +kernel, by decide +kernel, by decide +kernel⟩

/-- In the reverse order the class has the same properties. -/
theorem reversed_valueClasses :
    (ofClass (implementing [ClassTable.namedMethod "getY", truth "isY", truth "isX"]
      [{ name := "setX", fixed := [.object], returns := .void }, ClassTable.namedMethod "getX",
        { name := "setX", fixed := [.string], returns := .void }]) (.host 1)).unplaced =
      (ofClass valueClasses (.host 1)).unplaced :=
  (properties_order_free _ _ _ legible_valueClasses
    (reordered_implementing (List.reverse_perm _).symm (List.reverse_perm _).symm)).1

/-- The interface provides a test of `x`, but the property is read by the method of the class,
which gives no truth value. -/
theorem own_reader_hides_default_test :
    valueClasses.Legible (valueClasses.sources (.host 1)) ∧
      ∃ m ∈ valueClasses.allMethods (.host 1), role? m = some (.test, "x") ∧
        ∃ p, (ofClass valueClasses (.host 1)).find? "x" = some p ∧ p.type = .object ∧
          ∃ n, p.reader = some n ∧ role? n = some (.reader, "x") := by
  have hdefaults : valueClasses.defaultMethods (.host 1) =
      ClassMembers.place (.host 0) false
        [truth "isX", truth "isY", ClassTable.namedMethod "getY"] := by
    rw [ClassTable.defaultMethods, ClassTable.classMethods, valueClasses, ancestors_implementing,
      allInterfaces_implementing]
    rfl
  have hread : ((ofClass valueClasses (.host 1)).find? "x").map
      (fun p => (p.type, p.reader.map role?)) = some (.object, some (some (.reader, "x"))) := by
    rw [ofClass, hdefaults, ClassTable.classMethods, valueClasses, ancestors_implementing]
    decide +kernel
  obtain ⟨p, hp, hpair⟩ := Option.map_eq_some_iff.mp hread
  obtain ⟨htype, hreader⟩ := Prod.mk.inj hpair
  obtain ⟨n, hn, hrole⟩ := Option.map_eq_some_iff.mp hreader
  refine ⟨legible_valueClasses, ⟨truth "isX", ⟨.host 0, false, 0⟩⟩, ?_, by decide +kernel, p, hp,
    htype, n, hn, hrole⟩
  rw [ClassTable.allMethods, hdefaults]
  exact List.mem_append_right _ List.mem_cons_self

end BeanProperties

end ExprLang
