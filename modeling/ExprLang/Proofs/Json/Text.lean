import ExprLang.Json.Reader

/-! A value without numbers reads back from its indented text, as deep as readers go. -/

namespace ExprLang.Json

/-! ## Strings -/

/-- The characters of a string as they are written. -/
def escaped (cs : List Char) : List Char := cs.flatMap fun c => (escape c).toList

theorem toList_quote (s : String) : (quote s).toList = '"' :: (escaped s.toList ++ ['"']) := by
  simp [quote, escaped, String.toList_join, List.flatMap_map]

theorem hex4_control : ∀ n < 0x20,
    (hex4 n).toList.length = 4 ∧ readHex4 (hex4 n).toList = some (n, []) := by decide

/-- The digits of a control character, whatever follows. -/
theorem readUnicode_hex4 {c : Char} (hc : c.toNat < 0x20) (rest : List Char) :
    readUnicode ((hex4 c.toNat).toList ++ rest) = some (c, rest) := by
  obtain ⟨hlength, hread⟩ := hex4_control c.toNat hc
  have hread : readHex4 ((hex4 c.toNat).toList ++ rest) = some (c.toNat, rest) := by
    unfold readHex4 at hread ⊢
    rw [← hlength, List.take_length] at hread
    rw [← hlength, List.take_left' rfl, List.drop_left' rfl]
    dsimp only at hread ⊢
    split at hread
    · simpa using congrArg (Option.map Prod.fst) hread
    · cases hread
  have hlow : c.toNat < 0xd800 := by omega
  simp [readUnicode, hread, hlow, Char.ofNat_toNat]

/-- Every character is read from what it is written as, in one step. -/
theorem readString_escape (read : List Char) (fuel : Nat) (c : Char) (rest : List Char) :
    readString read (fuel + 1) ((escape c).toList ++ rest) = readString (c :: read) fuel rest := by
  by_cases hspecial : c ∈ ['"', '\\', '\n', '\r', '\t', '\x08', '\x0c']
  · simp only [List.mem_cons, List.not_mem_nil, or_false] at hspecial
    rcases hspecial with rfl | rfl | rfl | rfl | rfl | rfl | rfl <;> rfl
  · simp only [List.mem_cons, List.not_mem_nil, or_false, not_or] at hspecial
    obtain ⟨hquote, hslash, hline, hreturn, htab, hback, hform⟩ := hspecial
    simp only [escape, beq_iff_eq, hquote, hslash, hline, hreturn, htab, hback, hform, if_false]
    split
    · next hcontrol =>
      have hmark : "\\u".toList = ['\\', 'u'] := rfl
      rw [String.toList_append, List.append_assoc, hmark, List.cons_append, List.cons_append,
        List.nil_append, readString]
      simp [readUnicode_hex4 hcontrol]
    · next hcontrol => simp [readString, hquote, hslash, hcontrol]

theorem readString_escaped (cs : List Char) :
    ∀ (read : List Char) (fuel : Nat) (rest : List Char), cs.length < fuel →
      readString read fuel (escaped cs ++ '"' :: rest) =
        some (String.ofList (read.reverse ++ cs), rest) := by
  induction cs with
  | nil =>
    intro read fuel rest hfuel
    obtain ⟨fuel, rfl⟩ := Nat.exists_eq_add_one.mpr hfuel
    simp [escaped, readString]
  | cons c cs ih =>
    intro read fuel rest hfuel
    obtain ⟨fuel, rfl⟩ := Nat.exists_eq_add_one.mpr (Nat.zero_lt_of_lt hfuel)
    have hcons : escaped (c :: cs) = (escape c).toList ++ escaped cs := rfl
    rw [hcons, List.append_assoc, readString_escape,
      ih (c :: read) fuel rest (Nat.lt_of_succ_lt_succ hfuel)]
    simp

theorem length_le_escaped (cs : List Char) : cs.length ≤ (escaped cs).length := by
  induction cs with
  | nil => exact Nat.le_refl 0
  | cons c cs ih =>
    have hpos : 0 < (escape c).toList.length := by
      unfold escape
      repeat' split
      all_goals simp
    have hcons : escaped (c :: cs) = (escape c).toList ++ escaped cs := rfl
    rw [hcons, List.length_append, List.length_cons]
    omega

/-- A string is read from what stands between its quotes. -/
theorem readString_quoted (s : String) (rest : List Char) :
    readString [] ((escaped s.toList ++ '"' :: rest).length + 1) (escaped s.toList ++ '"' :: rest) =
      some (s, rest) := by
  have hlength := length_le_escaped s.toList
  rw [readString_escaped]
  · simp
  · rw [List.length_append]
    omega

/-! ## Blanks -/

theorem skipSpaces_of_head {c : Char} (hc : isSpace c = false) (cs : List Char) :
    skipSpaces (c :: cs) = c :: cs := by
  simp [skipSpaces, hc]

theorem skipSpaces_newline (depth : Nat) (cs : List Char) :
    skipSpaces ((newline depth).toList ++ cs) = skipSpaces cs := by
  have hblank : ∀ c ∈ (newline depth).toList, isSpace c = true := by
    intro c hc
    simp only [newline, String.toList_append, String.toList_ofList, List.mem_append] at hc
    rcases hc with hc | hc
    · have : c = '\n' := by simpa using hc
      subst this
      rfl
    · rw [List.eq_of_mem_replicate hc]
      rfl
  exact List.dropWhile_append_of_pos hblank

theorem readValue_newline (depth fuel d : Nat) (cs : List Char) :
    readValue depth fuel ((newline d).toList ++ cs) = readValue depth fuel cs := by
  cases fuel with
  | zero => rfl
  | succ fuel => rw [readValue, readValue, skipSpaces_newline]

theorem readItems_newline (depth fuel d : Nat) (cs : List Char) :
    readItems depth fuel ((newline d).toList ++ cs) = readItems depth fuel cs := by
  cases fuel with
  | zero => rfl
  | succ fuel => rw [readItems, readItems, readValue_newline]

theorem readMembers_newline (depth fuel d : Nat) (cs : List Char) :
    readMembers depth fuel ((newline d).toList ++ cs) = readMembers depth fuel cs := by
  cases fuel with
  | zero => rfl
  | succ fuel => rw [readMembers, readMembers, skipSpaces_newline]

/-! ## Values -/

mutual

/-- No number stands anywhere in the value. -/
def NumberFree : Json → Prop
  | .number _ => False
  | .array xs => ItemsNumberFree xs
  | .object ms => MembersNumberFree ms
  | _ => True

def ItemsNumberFree : List Json → Prop
  | [] => True
  | x :: xs => NumberFree x ∧ ItemsNumberFree xs

def MembersNumberFree : List (String × Json) → Prop
  | [] => True
  | (_, v) :: ms => NumberFree v ∧ MembersNumberFree ms

end

theorem itemsNumberFree_iff {xs : List Json} :
    ItemsNumberFree xs ↔ ∀ x ∈ xs, NumberFree x := by
  induction xs with
  | nil => simp [ItemsNumberFree]
  | cons x xs ih => simp [ItemsNumberFree, ih]

theorem membersNumberFree_iff {ms : List (String × Json)} :
    MembersNumberFree ms ↔ ∀ m ∈ ms, NumberFree m.2 := by
  induction ms with
  | nil => simp [MembersNumberFree]
  | cons m ms ih => simp [MembersNumberFree, ih]

theorem itemsNumberFree_strings (ss : List String) : ItemsNumberFree (ss.map .string) := by
  induction ss with
  | nil => trivial
  | cons s ss ih => exact ⟨trivial, ih⟩

/-! ### The characters of a text -/

section

attribute [local simp] pretty prettyItems prettyMembers

theorem toList_null (d : Nat) : (pretty d .null).toList = 'n' :: "ull".toList := by
  simp

theorem toList_bool (d : Nat) (b : Bool) :
    (pretty d (.bool b)).toList = if b then 't' :: "rue".toList else 'f' :: "alse".toList := by
  cases b <;> simp

theorem toList_string (d : Nat) (s : String) :
    (pretty d (.string s)).toList = '"' :: (escaped s.toList ++ ['"']) := by
  rw [pretty, toList_quote]

theorem toList_array_nil (d : Nat) : (pretty d (.array [])).toList = ['[', ']'] := by
  simp

theorem toList_array (d : Nat) (x : Json) (xs : List Json) :
    (pretty d (.array (x :: xs))).toList =
      '[' :: ((newline (d + 1)).toList ++ ((pretty (d + 1) x).toList ++
        ((prettyItems (d + 1) xs).toList ++ ((newline d).toList ++ [']'])))) := by
  simp

theorem toList_items_cons (d : Nat) (x : Json) (xs : List Json) :
    (prettyItems d (x :: xs)).toList =
      ',' :: ((newline d).toList ++ ((pretty d x).toList ++ (prettyItems d xs).toList)) := by
  simp

theorem toList_object_nil (d : Nat) : (pretty d (.object [])).toList = ['\x7b', '\x7d'] := by
  simp

/-- The text of one member. -/
def memberText (d : Nat) (k : String) (v : Json) : List Char :=
  '"' :: (escaped k.toList ++ '"' :: ':' :: ' ' :: (pretty d v).toList)

theorem toList_object (d : Nat) (k : String) (v : Json) (ms : List (String × Json)) :
    (pretty d (.object ((k, v) :: ms))).toList =
      '\x7b' :: ((newline (d + 1)).toList ++ (memberText (d + 1) k v ++
        ((prettyMembers (d + 1) ms).toList ++ ((newline d).toList ++ ['\x7d'])))) := by
  simp [memberText, toList_quote]

theorem toList_members_cons (d : Nat) (k : String) (v : Json) (ms : List (String × Json)) :
    (prettyMembers d ((k, v) :: ms)).toList =
      ',' :: ((newline d).toList ++ (memberText d k v ++ (prettyMembers d ms).toList)) := by
  simp [memberText, toList_quote]

end

/-- A text of a value begins with a sign that is neither blank nor closes anything. -/
theorem pretty_head {j : Json} (hj : NumberFree j) (d : Nat) :
    ∃ c cs, (pretty d j).toList = c :: cs ∧ isSpace c = false ∧ c ≠ ']' := by
  cases j with
  | null => exact ⟨'n', _, toList_null d, rfl, by decide⟩
  | bool b =>
    cases b with
    | false => exact ⟨'f', _, toList_bool d false, rfl, by decide⟩
    | true => exact ⟨'t', _, toList_bool d true, rfl, by decide⟩
  | number t => exact hj.elim
  | string s => exact ⟨'"', _, toList_string d s, rfl, by decide⟩
  | array xs =>
    cases xs with
    | nil => exact ⟨'[', _, toList_array_nil d, rfl, by decide⟩
    | cons x xs => exact ⟨'[', _, toList_array d x xs, rfl, by decide⟩
  | object ms =>
    cases ms with
    | nil => exact ⟨'\x7b', _, toList_object_nil d, rfl, by decide⟩
    | cons m ms => exact ⟨'\x7b', _, toList_object d m.1 m.2 ms, rfl, by decide⟩

/-! ### Reading -/

theorem readWord_self (word : String) (rest : List Char) :
    readWord word (word.toList ++ rest) = some rest := by
  have hprefix : word.toList.isPrefixOf (word.toList ++ rest) = true := by simp
  unfold readWord
  rw [if_pos hprefix, ← String.length_toList, List.drop_left' rfl]

/-- The first item is read, and then those after a comma. -/
theorem readItems_first {depth fuel : Nat} {cs rest : List Char} {x : Json}
    (hx : readValue depth fuel cs = some (x, rest)) :
    readItems depth (fuel + 1) cs =
      match skipSpaces rest with
      | ',' :: cs => (readItems depth fuel cs).map fun (xs, cs) => (x :: xs, cs)
      | ']' :: cs => some ([x], cs)
      | _ => none := by
  rw [readItems]
  generalize readValue depth fuel cs = read at hx ⊢
  subst hx
  rfl

/-- The first member is read, and then those after a comma. -/
theorem readMembers_first {depth fuel d : Nat} {k : String} {v : Json} {cs rest : List Char}
    (hv : readValue depth fuel ((pretty d v).toList ++ cs) = some (v, rest)) :
    readMembers depth (fuel + 1) (memberText d k v ++ cs) =
      match skipSpaces rest with
      | ',' :: cs => (readMembers depth fuel cs).map fun (ms, cs) => ((k, v) :: ms, cs)
      | '\x7d' :: cs => some ([(k, v)], cs)
      | _ => none := by
  have hblank (cs : List Char) : readValue depth fuel (' ' :: cs) = readValue depth fuel cs := by
    cases fuel with
    | zero => rfl
    | succ fuel => rw [readValue, readValue]; rfl
  have hcs : memberText d k v ++ cs =
      '"' :: (escaped k.toList ++ '"' :: ':' :: ' ' :: ((pretty d v).toList ++ cs)) := by
    simp [memberText]
  have hcolon (cs : List Char) : skipSpaces (':' :: cs) = ':' :: cs := skipSpaces_of_head rfl cs
  rw [hcs, readMembers, skipSpaces_of_head rfl]
  simp only [readString_quoted, hcolon, hblank]
  generalize readValue depth fuel ((pretty d v).toList ++ cs) = read at hv ⊢
  subst hv
  rfl

theorem readValue_null (depth fuel d : Nat) (rest : List Char) :
    readValue depth (fuel + 1) ((pretty d .null).toList ++ rest) = some (.null, rest) := by
  rw [toList_null, List.cons_append, readValue, skipSpaces_of_head rfl]
  simp only [readWord_self "ull" rest]
  rfl

theorem readValue_bool (depth fuel d : Nat) (b : Bool) (rest : List Char) :
    readValue depth (fuel + 1) ((pretty d (.bool b)).toList ++ rest) = some (.bool b, rest) := by
  rw [toList_bool]
  cases b with
  | false =>
    rw [if_neg Bool.false_ne_true, List.cons_append, readValue, skipSpaces_of_head rfl]
    simp only [readWord_self "alse" rest]
    rfl
  | true =>
    rw [if_pos rfl, List.cons_append, readValue, skipSpaces_of_head rfl]
    simp only [readWord_self "rue" rest]
    rfl

theorem readValue_string (depth fuel d : Nat) (s : String) (rest : List Char) :
    readValue depth (fuel + 1) ((pretty d (.string s)).toList ++ rest) = some (.string s, rest) := by
  have hcs : (pretty d (.string s)).toList ++ rest = '"' :: (escaped s.toList ++ '"' :: rest) := by
    rw [toList_string]
    simp
  rw [hcs, readValue, skipSpaces_of_head rfl]
  simp only [readString_quoted]
  rfl

theorem readValue_array_nil (depth fuel d : Nat) (rest : List Char) :
    readValue (depth + 1) (fuel + 1) ((pretty d (.array [])).toList ++ rest) =
      some (.array [], rest) := by
  rw [toList_array_nil, List.cons_append, List.cons_append, List.nil_append, readValue,
    skipSpaces_of_head rfl]
  have hclose : skipSpaces (']' :: rest) = ']' :: rest := skipSpaces_of_head rfl rest
  simp [hclose]

theorem readValue_array {depth fuel d : Nat} {x : Json} {xs : List Json} {rest : List Char}
    (hx : NumberFree x)
    (hitems : readItems depth fuel ((pretty (d + 1) x).toList ++ ((prettyItems (d + 1) xs).toList ++
      ((newline d).toList ++ ']' :: rest))) = some (x :: xs, rest)) :
    readValue (depth + 1) (fuel + 1) ((pretty d (.array (x :: xs))).toList ++ rest) =
      some (.array (x :: xs), rest) := by
  obtain ⟨c, cs, hcs, hc, hclose⟩ := pretty_head hx (d + 1)
  have htext : (pretty d (.array (x :: xs))).toList ++ rest =
      '[' :: ((newline (d + 1)).toList ++ (c :: (cs ++ ((prettyItems (d + 1) xs).toList ++
      ((newline d).toList ++ ']' :: rest))))) := by
    rw [toList_array, hcs]
    simp
  rw [hcs, List.cons_append] at hitems
  rw [htext, readValue, skipSpaces_of_head rfl]
  simp only [skipSpaces_newline, skipSpaces_of_head hc]
  simp [hclose, hitems]

theorem readValue_object_nil (depth fuel d : Nat) (rest : List Char) :
    readValue (depth + 1) (fuel + 1) ((pretty d (.object [])).toList ++ rest) =
      some (.object [], rest) := by
  rw [toList_object_nil, List.cons_append, List.cons_append, List.nil_append, readValue,
    skipSpaces_of_head rfl]
  have hclose : skipSpaces ('\x7d' :: rest) = '\x7d' :: rest := skipSpaces_of_head rfl rest
  simp [hclose]

theorem readValue_object {depth fuel d : Nat} {k : String} {v : Json} {ms : List (String × Json)}
    {rest : List Char}
    (hmembers : readMembers depth fuel (memberText (d + 1) k v ++
      ((prettyMembers (d + 1) ms).toList ++ ((newline d).toList ++ '\x7d' :: rest))) =
        some ((k, v) :: ms, rest)) :
    readValue (depth + 1) (fuel + 1) ((pretty d (.object ((k, v) :: ms))).toList ++ rest) =
      some (.object ((k, v) :: ms), rest) := by
  have htext : (pretty d (.object ((k, v) :: ms))).toList ++ rest =
      '\x7b' :: ((newline (d + 1)).toList ++ (memberText (d + 1) k v ++
      ((prettyMembers (d + 1) ms).toList ++ ((newline d).toList ++ '\x7d' :: rest)))) := by
    rw [toList_object]
    simp
  have hhead (cs : List Char) : skipSpaces (memberText (d + 1) k v ++ cs) =
      memberText (d + 1) k v ++ cs := skipSpaces_of_head rfl _
  rw [htext, readValue, skipSpaces_of_head rfl]
  simp only [skipSpaces_newline, hhead]
  simp [memberText] at hmembers ⊢
  simp [hmembers]

/-! ### Whole values -/

theorem memberText_length (d : Nat) (k : String) (v : Json) :
    (pretty d v).toList.length < (memberText d k v).length := by
  simp only [memberText, List.length_cons, List.length_append]
  omega

/-- With so much fuel, values, items and members read back from their texts, whatever follows. -/
structure ReadsBack (fuel : Nat) : Prop where
  value (d depth : Nat) (j : Json) (rest : List Char) : NumberFree j → j.depth ≤ depth →
    2 * (pretty d j).toList.length ≤ fuel →
    readValue depth fuel ((pretty d j).toList ++ rest) = some (j, rest)
  items (d outer depth : Nat) (x : Json) (xs : List Json) (rest : List Char) :
    ItemsNumberFree (x :: xs) → itemsDepth (x :: xs) ≤ depth →
    2 * ((pretty d x).toList.length + (prettyItems d xs).toList.length) < fuel →
    readItems depth fuel ((pretty d x).toList ++ ((prettyItems d xs).toList ++
      ((newline outer).toList ++ ']' :: rest))) = some (x :: xs, rest)
  members (d outer depth : Nat) (k : String) (v : Json) (ms : List (String × Json))
    (rest : List Char) :
    MembersNumberFree ((k, v) :: ms) → membersDepth ((k, v) :: ms) ≤ depth →
    2 * ((memberText d k v).length + (prettyMembers d ms).toList.length) < fuel →
    readMembers depth fuel (memberText d k v ++ ((prettyMembers d ms).toList ++
      ((newline outer).toList ++ '\x7d' :: rest))) = some ((k, v) :: ms, rest)

theorem ReadsBack.value_succ {fuel : Nat} (ih : ReadsBack fuel) (d depth : Nat) {j : Json}
    (rest : List Char) (hj : NumberFree j) (hdepth : j.depth ≤ depth)
    (hfuel : 2 * (pretty d j).toList.length ≤ fuel + 1) :
    readValue depth (fuel + 1) ((pretty d j).toList ++ rest) = some (j, rest) := by
  cases j with
  | null => exact readValue_null depth fuel d rest
  | bool b => exact readValue_bool depth fuel d b rest
  | number t => exact hj.elim
  | string s => exact readValue_string depth fuel d s rest
  | array xs =>
    rw [Json.depth] at hdepth
    obtain ⟨depth, rfl⟩ := Nat.exists_eq_add_one.mpr (Nat.zero_lt_of_lt hdepth)
    cases xs with
    | nil => exact readValue_array_nil depth fuel d rest
    | cons x xs =>
      simp only [toList_array, List.length_cons, List.length_append] at hfuel
      exact readValue_array hj.1 (ih.items (d + 1) d depth x xs rest hj
        (Nat.le_of_succ_le_succ hdepth) (by omega))
  | object ms =>
    rw [Json.depth] at hdepth
    obtain ⟨depth, rfl⟩ := Nat.exists_eq_add_one.mpr (Nat.zero_lt_of_lt hdepth)
    cases ms with
    | nil => exact readValue_object_nil depth fuel d rest
    | cons m ms =>
      obtain ⟨k, v⟩ := m
      simp only [toList_object, List.length_cons, List.length_append] at hfuel
      exact readValue_object (ih.members (d + 1) d depth k v ms rest hj
        (Nat.le_of_succ_le_succ hdepth) (by omega))

theorem ReadsBack.items_succ {fuel : Nat} (ih : ReadsBack fuel) (d outer depth : Nat) {x : Json}
    {xs : List Json} (rest : List Char) (hxs : ItemsNumberFree (x :: xs))
    (hdepth : itemsDepth (x :: xs) ≤ depth)
    (hfuel : 2 * ((pretty d x).toList.length + (prettyItems d xs).toList.length) < fuel + 1) :
    readItems depth (fuel + 1) ((pretty d x).toList ++ ((prettyItems d xs).toList ++
      ((newline outer).toList ++ ']' :: rest))) = some (x :: xs, rest) := by
  rw [itemsDepth, Nat.max_le] at hdepth
  rw [readItems_first (ih.value d depth x _ hxs.1 hdepth.1 (by omega))]
  cases xs with
  | nil =>
    have hnil : (prettyItems d []).toList = [] := by simp [prettyItems]
    rw [hnil, List.nil_append, skipSpaces_newline, skipSpaces_of_head rfl]
    rfl
  | cons y ys =>
    simp only [toList_items_cons, List.length_cons, List.length_append] at hfuel
    rw [toList_items_cons, List.cons_append, skipSpaces_of_head rfl]
    simp only [List.append_assoc, readItems_newline]
    rw [ih.items d outer depth y ys rest hxs.2 hdepth.2 (by omega)]
    rfl

theorem ReadsBack.members_succ {fuel : Nat} (ih : ReadsBack fuel) (d outer depth : Nat)
    {k : String} {v : Json} {ms : List (String × Json)} (rest : List Char)
    (hms : MembersNumberFree ((k, v) :: ms)) (hdepth : membersDepth ((k, v) :: ms) ≤ depth)
    (hfuel : 2 * ((memberText d k v).length + (prettyMembers d ms).toList.length) < fuel + 1) :
    readMembers depth (fuel + 1) (memberText d k v ++ ((prettyMembers d ms).toList ++
      ((newline outer).toList ++ '\x7d' :: rest))) = some ((k, v) :: ms, rest) := by
  have hlength := memberText_length d k v
  rw [membersDepth, Nat.max_le] at hdepth
  rw [readMembers_first (ih.value d depth v _ hms.1 hdepth.1 (by omega))]
  cases ms with
  | nil =>
    have hnil : (prettyMembers d []).toList = [] := by simp [prettyMembers]
    rw [hnil, List.nil_append, skipSpaces_newline, skipSpaces_of_head rfl]
    rfl
  | cons m ms =>
    obtain ⟨l, w⟩ := m
    simp only [toList_members_cons, List.length_cons, List.length_append] at hfuel
    rw [toList_members_cons, List.cons_append, skipSpaces_of_head rfl]
    simp only [List.append_assoc, readMembers_newline]
    rw [ih.members d outer depth l w ms rest hms.2 hdepth.2 (by omega)]
    rfl

theorem readsBack (fuel : Nat) : ReadsBack fuel := by
  induction fuel with
  | zero =>
    refine ⟨fun d depth j rest hj _ hfuel => ?_, fun _ _ _ _ _ _ _ _ h => (Nat.not_lt_zero _ h).elim,
      fun _ _ _ _ _ _ _ _ _ h => (Nat.not_lt_zero _ h).elim⟩
    obtain ⟨c, cs, hcs, -, -⟩ := pretty_head hj d
    rw [hcs, List.length_cons] at hfuel
    omega
  | succ fuel ih =>
    exact ⟨fun d depth j rest => ih.value_succ d depth rest,
      fun d outer depth x xs rest => ih.items_succ d outer depth rest,
      fun d outer depth k v ms rest => ih.members_succ d outer depth rest⟩

theorem length_le_utf8ByteSize (s : String) : s.toList.length ≤ s.utf8ByteSize := by
  have hlist (cs : List Char) : cs.length ≤ (String.ofList cs).utf8ByteSize := by
    induction cs with
    | nil => exact Nat.zero_le _
    | cons c cs ih =>
      have hpos := Char.utf8Size_pos c
      rw [String.ofList_cons, String.utf8ByteSize_append, String.utf8ByteSize_singleton,
        List.length_cons]
      omega
  simpa using hlist s.toList

/-- A value without numbers reads back from its text where it nests no deeper than readers go. -/
theorem ofText?_render {j : Json} (hj : NumberFree j) (hdepth : j.depth ≤ depthLimit) :
    ofText? j.render = some j := by
  have hlength := length_le_utf8ByteSize j.render
  have hread := (readsBack (2 * j.render.utf8ByteSize + 2)).value 0 depthLimit j [] hj hdepth
    (by rw [render] at hlength ⊢; omega)
  rw [List.append_nil] at hread
  unfold ofText?
  rw [render] at hread ⊢
  rw [hread]
  rfl

end ExprLang.Json
