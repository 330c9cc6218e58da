import ExprLang.Proofs.Form.Restored
import ExprLang.Proofs.Lineage.Stores

/-! The name of a type is read as the type again, except where a builtin class in it describes another type,
which is read then. Types of the same name are the same. -/

namespace ExprLang

/-! ## Types and the classes in them -/

namespace TypeRef

/-- A type has a name of its own, or is an array or a class. -/
@[elab_as_elim]
theorem name_induction {motive : TypeRef → Prop} (plain : ∀ t ∈ plain, motive t)
    (array : ∀ component, motive component → motive (.array component))
    (named : ∀ c, motive (.named c)) (t : TypeRef) : motive t := by
  induction t with
  | array component ih => exact array component ih
  | named c => exact named c
  | primitive p => exact plain _ (by cases p <;> decide)
  | boxed p => exact plain _ (by cases p <;> decide)
  | _ => exact plain _ (by decide)

/-- The class that a type is, or that an array is made of in the end. -/
def class? : TypeRef → Option ClassId
  | array component => component.class?
  | named c => some c
  | _ => none

theorem class?_of_plain : ∀ t ∈ plain, t.class? = none := by
  decide

theorem plainName_inj {t u : TypeRef} (ht : t ∈ plain) (hu : u ∈ plain)
    (h : t.plainName = u.plainName) : t = u := by
  obtain ⟨-, -, hfind⟩ := Registry.plainName_reads t ht
  obtain ⟨-, -, hfind'⟩ := Registry.plainName_reads u hu
  rw [h, hfind'] at hfind
  exact (Option.some.inj hfind).symm

theorem plainName_unbracketed : ∀ t ∈ plain, ¬ ['[', ']'] <:+ t.plainName.toList := by
  decide +kernel

end TypeRef

namespace Lineage
variable {l : Lineage} {t : TypeRef}

/-- The type with what the class in it describes in the place of the class. -/
def described (l : Lineage) : TypeRef → TypeRef
  | .array component => .array (l.described component)
  | .named c => l.asType c
  | t => t

theorem described_of_plain (l : Lineage) : ∀ t ∈ TypeRef.plain, l.described t = t := by
  simp [TypeRef.plain, Primitive.all, described]

theorem asType_eq_named_iff (hl : l.Proper) (c : ClassId) :
    l.asType c = .named c ↔ ∀ b, c = .builtin b → b.stands = none := by
  cases c with
  | builtin b => cases b <;> simp [asType, shape, Builtin.shape, Builtin.stands]
  | host n => simp [asType_host hl]

/-- A type stays as it is unless a builtin class in it describes another type. -/
theorem described_eq_iff (hl : l.Proper) (t : TypeRef) :
    l.described t = t ↔ ∀ b, t.class? = some (.builtin b) → b.stands = none := by
  induction t using TypeRef.name_induction with
  | plain t ht => simp [described_of_plain l t ht, TypeRef.class?_of_plain t ht]
  | array component ih => simpa [described, TypeRef.class?] using ih
  | named c => simpa [described, TypeRef.class?] using asType_eq_named_iff hl c

end Lineage

/-! ## Names of classes -/

/-- A name that can only be that of a class: no type with a name of its own has it, it does not end as the
names of arrays do, and no blanks stand around it. -/
structure Unreserved (name : String) : Prop where
  free : ∀ t ∈ TypeRef.plain, t.plainName ≠ name
  unbracketed : ¬ ['[', ']'] <:+ name.toList
  trimmed : trimBlanks name = name

instance (name : String) : Decidable (Unreserved name) :=
  decidable_of_iff ((∀ t ∈ TypeRef.plain, t.plainName ≠ name) ∧ ¬ ['[', ']'] <:+ name.toList ∧
      trimBlanks name = name)
    ⟨fun ⟨free, unbracketed, trimmed⟩ => ⟨free, unbracketed, trimmed⟩,
      fun h => ⟨h.free, h.unbracketed, h.trimmed⟩⟩

theorem Builtin.unreserved_name (b : Builtin) : Unreserved b.name := by
  cases b <;> decide +kernel

/-- A text that trimming leaves as it is ends in no blank. -/
theorem isBlank_of_trimmed {s : String} {c : Char} (h : trimBlanks s = s)
    (hc : s.toList.reverse.head? = some c) : isBlank c = false := by
  have hs : s.toList.reverse = (s.toList.dropWhile isBlank).reverse.dropWhile isBlank := by
    have hlists := congrArg (fun s => s.toList.reverse) h
    simpa [trimBlanks] using hlists.symm
  have hlast := List.head?_dropWhile_not isBlank (s.toList.dropWhile isBlank).reverse
  rw [← hs, hc] at hlast
  simpa using hlast

namespace Registry
variable {r : Registry} {l : Lineage} {name : String} {t u : TypeRef} {c d : ClassId}

/-! ## Reading a name -/

theorem splitBrackets_pair (cs : List Char) :
    splitBrackets (']' :: '[' :: cs) = ((splitBrackets cs).1 + 1, (splitBrackets cs).2) := rfl

/-- Brackets behind a name make it the name of an array. -/
theorem resolveType_brackets (r : Registry) (l : Lineage) (name : String) :
    r.resolveType l (name ++ "[]") = (r.resolveType l name).map .array := by
  have hreverse : (name ++ "[]").toList.reverse = ']' :: '[' :: name.toList.reverse := by simp
  unfold resolveType
  rw [hreverse, splitBrackets_pair]
  simp only [Option.map_map]
  rfl

/-- Nothing is split off where neither brackets nor blanks stand at the end. -/
theorem splitBrackets_eq {cs : List Char} (hbrackets : ¬ [']', '['] <+: cs)
    (hblanks : ∀ c, cs.head? = some c → isBlank c = false) : splitBrackets cs = (0, cs) := by
  fun_cases splitBrackets cs with
  | case1 rest => exact absurd ⟨rest, rfl⟩ hbrackets
  | case2 c rest _ hc => rw [hblanks c rfl] at hc; cases hc
  | case3 => rfl
  | case4 => rfl

/-- An unreserved name is looked up among the classes. -/
theorem resolveType_unreserved (r : Registry) (l : Lineage) (h : Unreserved name) :
    r.resolveType l name = (r.resolve name).map l.asType := by
  have hsplit : splitBrackets name.toList.reverse = (0, name.toList.reverse) := by
    refine splitBrackets_eq (fun hbrackets => h.unbracketed ?_) fun c => isBlank_of_trimmed h.trimmed
    simpa using List.reverse_suffix.mpr hbrackets
  have hplain : TypeRef.plain.find? (·.plainName == name) = none := by
    rw [List.find?_eq_none]
    exact fun t ht => by simpa using h.free t ht
  have hdepth : (arrayOf · 0) = id := rfl
  rw [resolveType, hsplit]
  simp only [List.reverse_reverse, String.ofList_toList, h.trimmed, resolveSimpleType, hplain,
    Option.none_or, hdepth, Option.map_id, id]

/-! ## Registered classes -/

/-- The class is registered under its full name. -/
def Holds (r : Registry) (l : Lineage) (c : ClassId) : Prop :=
  r.entries.find? (·.1 == l.name c) = some (l.name c, c)

/-- The names of the registered classes, but for builtin ones, are unreserved. -/
def Orderly (r : Registry) (l : Lineage) : Prop :=
  ∀ e ∈ r.entries, ∀ n, e.2 = .host n → Unreserved (l.name e.2)

/-- The class in the type, if there is one, is registered under its full name. -/
def Registers (r : Registry) (l : Lineage) (t : TypeRef) : Prop := ∀ c ∈ t.class?, r.Holds l c

theorem Holds.resolve_eq (h : r.Holds l c) : r.resolve (l.name c) = some c := by
  rw [resolve, h]

/-- Of the classes with one name, one is registered. -/
theorem Holds.inj (hc : r.Holds l c) (hd : r.Holds l d) (h : l.name c = l.name d) : c = d := by
  unfold Holds at hc hd
  rw [h, hd] at hc
  cases hc
  rfl

theorem Orderly.unreserved (hr : r.Orderly l) (hc : r.Holds l c) : Unreserved (l.name c) := by
  cases c with
  | builtin b => exact b.unreserved_name
  | host n => exact hr _ (List.mem_of_find?_eq_some hc) n rfl

/-- An entry keeps its name, whichever class takes its place. -/
theorem replaced_keys (name key : String) (c : ClassId) :
    (fun e : String × ClassId => e.1 == key) ∘
      (fun e => if e.1 == name then (name, c) else e) = (·.1 == key) := by
  funext e
  by_cases h : e.1 = name <;> simp [h]

theorem mem_register {e : String × ClassId} (h : e ∈ (r.register name c).entries) :
    e ∈ r.entries ∨ e = (name, c) := by
  unfold register at h
  split at h
  · obtain ⟨e', he', rfl⟩ := List.mem_map.mp h
    split
    · exact .inr rfl
    · exact .inl he'
  · simpa using h

/-- The class takes the place of one that had the name before. -/
theorem find?_register_self (r : Registry) (name : String) (c : ClassId) :
    (r.register name c).entries.find? (·.1 == name) = some (name, c) := by
  unfold register
  split
  · next hany =>
    obtain ⟨e, he⟩ := Option.isSome_iff_exists.mp (List.find?_isSome.mpr (List.any_eq_true.mp hany))
    have hname : (e.1 == name) = true := by simpa using List.find?_some he
    rw [List.find?_map, replaced_keys, he, Option.map_some, if_pos hname]
  · next hany =>
    have hnone : r.entries.find? (·.1 == name) = none := by
      rw [List.find?_eq_none]
      exact fun e he hname => hany (List.any_eq_true.mpr ⟨e, he, hname⟩)
    simp [hnone]

/-- Nothing changes under other names. -/
theorem find?_register_of_ne (r : Registry) {name key : String} (c : ClassId) (hne : name ≠ key) :
    (r.register name c).entries.find? (·.1 == key) = r.entries.find? (·.1 == key) := by
  unfold register
  split
  · rw [List.find?_map, replaced_keys]
    refine (Option.map_congr fun e he => ?_).trans Option.map_id'
    have hkey : e.1 = key := by simpa using List.find?_some he
    rw [if_neg]
    simpa [hkey] using hne.symm
  · simp [hne]

theorem holds_register (r : Registry) (l : Lineage) (c : ClassId) :
    (r.register (l.name c) c).Holds l c := by
  rw [Holds, find?_register_self]

/-- Another class stays registered unless it has the same name. -/
theorem Holds.register (h : r.Holds l c) (hne : l.name d ≠ l.name c) :
    (r.register (l.name d) d).Holds l c := by
  rw [Holds, find?_register_of_ne r d hne, h]

theorem Orderly.register (hr : r.Orderly l) (hd : Unreserved (l.name d)) :
    (r.register (l.name d) d).Orderly l := by
  intro e he n hn
  rcases mem_register he with he | rfl
  · exact hr e he n hn
  · exact hd

theorem orderly_builtins (l : Lineage) : builtins.Orderly l := by
  intro e he n hn
  obtain ⟨b, -, rfl⟩ := List.mem_map.mp he
  cases hn

theorem holds_builtins (l : Lineage) (b : Builtin) : builtins.Holds l (.builtin b) := by
  cases b <;> rfl

/-! ## Reading names of types -/

/-- The name of a type is read as the type with what the class in it describes. -/
theorem resolveType_typeName (hr : r.Orderly l) (ht : r.Registers l t) :
    r.resolveType l (l.typeName t) = some (l.described t) := by
  induction t using TypeRef.name_induction with
  | plain t hplain => rw [resolveType_plain r l hplain, l.described_of_plain t hplain]
  | array component ih =>
    have hcomponent : r.resolveType l (l.typeName component) = some (l.described component) := ih ht
    rw [Lineage.typeName, resolveType_brackets, hcomponent]
    rfl
  | named c =>
    have hc : r.Holds l c := ht c rfl
    rw [Lineage.typeName, resolveType_unreserved r l (hr.unreserved hc), hc.resolve_eq]
    rfl

theorem brackets_typeName (l : Lineage) (component : TypeRef) :
    ['[', ']'] <:+ (l.typeName (.array component)).toList := by
  rw [Lineage.typeName, String.toList_append]
  exact List.suffix_append _ _

/-- Arrays are told by their names. -/
theorem Orderly.array_iff (hr : r.Orderly l) (ht : r.Registers l t) :
    (∃ component, t = .array component) ↔ ['[', ']'] <:+ (l.typeName t).toList := by
  constructor
  · rintro ⟨component, rfl⟩
    exact brackets_typeName l component
  · intro hbrackets
    induction t using TypeRef.name_induction with
    | plain t hplain =>
      rw [l.typeName_of_plain hplain] at hbrackets
      exact absurd hbrackets (TypeRef.plainName_unbracketed t hplain)
    | array component => exact ⟨component, rfl⟩
    | named c => exact absurd hbrackets (hr.unreserved (ht c rfl)).unbracketed

/-- The types with names of their own are told by their names. -/
theorem Orderly.mem_plain_iff (hr : r.Orderly l) (ht : r.Registers l t) :
    t ∈ TypeRef.plain ↔ ∃ p ∈ TypeRef.plain, p.plainName = l.typeName t := by
  refine ⟨fun hplain => ⟨t, hplain, (l.typeName_of_plain hplain).symm⟩, ?_⟩
  rintro ⟨p, hp, hname⟩
  induction t using TypeRef.name_induction with
  | plain t hplain => exact hplain
  | array component =>
    exact absurd (hname ▸ brackets_typeName l component) (TypeRef.plainName_unbracketed p hp)
  | named c => exact absurd hname ((hr.unreserved (ht c rfl)).free p hp)

/-- Two types of one name are the same type. -/
theorem Orderly.typeName_inj (hr : r.Orderly l) (ht : r.Registers l t) (hu : r.Registers l u)
    (h : l.typeName t = l.typeName u) : t = u := by
  induction t using TypeRef.name_induction generalizing u with
  | plain t hplain =>
    have hplain' : u ∈ TypeRef.plain := (hr.mem_plain_iff hu).mpr (h ▸ (hr.mem_plain_iff ht).mp hplain)
    rw [l.typeName_of_plain hplain, l.typeName_of_plain hplain'] at h
    exact TypeRef.plainName_inj hplain hplain' h
  | array component ih =>
    obtain ⟨component', rfl⟩ := (hr.array_iff hu).mpr (h ▸ (hr.array_iff ht).mp ⟨component, rfl⟩)
    have hcomponents : l.typeName component = l.typeName component' := by
      simpa [Lineage.typeName] using h
    have heq : component = component' := ih ht hu hcomponents
    rw [heq]
  | named c =>
    cases u using TypeRef.name_induction with
    | plain u hplain =>
      have hc := (hr.mem_plain_iff ht).mpr (h ▸ (hr.mem_plain_iff hu).mp hplain)
      exact absurd hc (by simp [TypeRef.plain])
    | array component =>
      obtain ⟨_, ⟨⟩⟩ := (hr.array_iff ht).mpr (h ▸ (hr.array_iff hu).mp ⟨component, rfl⟩)
    | named d => exact congrArg TypeRef.named ((ht c rfl).inj (hu d rfl) h)

/-- The name of a type is read as the type itself just where no builtin class in it describes another type,
and else as what that class describes in its place. Either way no other type has the name. -/
theorem type_names_read_back (hl : l.Proper) (hr : r.Orderly l) (ht : r.Registers l t) :
    (r.Knows l t ↔ ∀ b, t.class? = some (.builtin b) → b.stands = none) ∧
      r.resolveType l (l.typeName t) = some (l.described t) ∧
      ∀ u, r.Registers l u → l.typeName u = l.typeName t → u = t := by
  have hread := resolveType_typeName hr ht
  refine ⟨?_, hread, fun u hu h => hr.typeName_inj hu ht h⟩
  rw [Knows, hread, Option.some_inj, Lineage.described_eq_iff hl]

/-- A class of the host with the simple name of a builtin one. -/
def namesake : Lineage := ⟨#[⟨"com.acme.String", .plain, some (.builtin .object), [], none⟩]⟩

/-- Arrays of arrays of its objects are read as such by their name. -/
theorem namesake_arrays_read_back :
    let r := builtins.register "com.acme.String" (.host 0)
    let t := TypeRef.array (.array (.named (.host 0)))
    namesake.Proper ∧ (∀ b, r.Holds namesake (.builtin b)) ∧ r.Orderly namesake ∧
      r.Registers namesake t ∧ r.resolveType namesake "com.acme.String[][]" = some t ∧
      ∀ u, r.Registers namesake u → namesake.typeName u = "com.acme.String[][]" → u = t := by
  intro r t
  have hproper : namesake.Proper := Lineage.proper_of_hosts (by simp [namesake])
  have hbuiltins (b : Builtin) : r.Holds namesake (.builtin b) :=
    (holds_builtins namesake b).register (d := .host 0) (by cases b <;> decide)
  have horderly : r.Orderly namesake :=
    (orderly_builtins namesake).register (d := .host 0) (by decide +kernel)
  have hregisters : r.Registers namesake t := by
    rintro c ⟨⟩
    exact holds_register builtins namesake (.host 0)
  obtain ⟨hknown, -, hunique⟩ := type_names_read_back hproper horderly hregisters
  exact ⟨hproper, hbuiltins, horderly, hregisters, hknown.mpr nofun, hunique⟩

/-- The builtin class of texts is registered under its full name, which is read as the type of texts that
the class describes and not as the class. -/
theorem text_class_not_read_back :
    Lineage.Proper ⟨#[]⟩ ∧ (∀ b, builtins.Holds ⟨#[]⟩ (.builtin b)) ∧ builtins.Orderly ⟨#[]⟩ ∧
      builtins.Registers ⟨#[]⟩ (.named (.builtin .string)) ∧
      builtins.resolveType ⟨#[]⟩ (Lineage.typeName ⟨#[]⟩ (.named (.builtin .string))) = some .string ∧
      ¬ builtins.Knows ⟨#[]⟩ (.named (.builtin .string)) := by
  have hregisters : builtins.Registers ⟨#[]⟩ (.named (.builtin .string)) := by
    rintro c ⟨⟩
    exact holds_builtins _ .string
  have hread := resolveType_typeName (orderly_builtins ⟨#[]⟩) hregisters
  refine ⟨Lineage.proper_of_hosts (by simp), holds_builtins _, orderly_builtins _, hregisters, hread, ?_⟩
  rw [Knows, hread]
  decide

end Registry

end ExprLang
