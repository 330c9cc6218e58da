import ExprLang.Builtin.Table
import ExprLang.Evaluation.Step
import ExprLang.Proofs.Action
import Mathlib.Algebra.Group.Nat.Defs
import Mathlib.Order.Bounds.Defs

/-! The methods of texts agree on positions: all of them count characters, and the first occurrence
of a text among characters is its first occurrence among bytes. -/

namespace ExprLang

namespace Search

variable {t s : List Char} {i j n : Nat}

/-! ## Occurrences -/

theorem startsWith_iff : startsWith t s = true ↔ t <+: s := List.isPrefixOf_iff_prefix

/-- The first of the places at which a text stands. -/
theorem indexOf?_spec (t s : List Char) :
    match indexOf? t s with
    | some i => i ≤ s.length ∧ t <+: s.drop i ∧ ∀ j < i, ¬ t <+: s.drop j
    | none => ∀ j, ¬ t <+: s.drop j := by
  induction s with
  | nil =>
    by_cases ht : t.isEmpty = true
    · rw [indexOf?, if_pos ht]
      exact ⟨Nat.le_refl 0, List.isEmpty_iff.mp ht ▸ List.nil_prefix, fun j hj => by omega⟩
    · rw [indexOf?, if_neg ht]
      intro j hprefix
      rw [List.drop_nil, List.prefix_nil] at hprefix
      exact ht (List.isEmpty_iff.mpr hprefix)
  | cons c s ih =>
    by_cases hstarts : startsWith t (c :: s) = true
    · rw [indexOf?, if_pos hstarts]
      exact ⟨Nat.zero_le _, startsWith_iff.mp hstarts, fun j hj => by omega⟩
    · rw [indexOf?, if_neg hstarts]
      have hfirst : ¬ t <+: (c :: s).drop 0 := fun h => hstarts (startsWith_iff.mpr h)
      cases hindex : indexOf? t s with
      | none =>
        rw [hindex] at ih
        intro j
        cases j with
        | zero => exact hfirst
        | succ j => exact ih j
      | some i =>
        rw [hindex] at ih
        obtain ⟨hle, hprefix, hleast⟩ := ih
        refine ⟨Nat.succ_le_succ hle, hprefix, fun j hj => ?_⟩
        cases j with
        | zero => exact hfirst
        | succ j => exact hleast j (Nat.lt_of_succ_lt_succ hj)

theorem prefix_of_indexOf? (h : indexOf? t s = some i) : i ≤ s.length ∧ t <+: s.drop i := by
  have hspec := indexOf?_spec t s
  rw [h] at hspec
  exact ⟨hspec.1, hspec.2.1⟩

/-- A place at which the text stands is not before the first one. -/
theorem indexOf?_of_prefix (h : t <+: s.drop j) : ∃ i, indexOf? t s = some i ∧ i ≤ j := by
  have hspec := indexOf?_spec t s
  cases hindex : indexOf? t s with
  | none =>
    rw [hindex] at hspec
    exact absurd h (hspec j)
  | some i =>
    rw [hindex] at hspec
    refine ⟨i, rfl, Nat.le_of_not_lt fun hlt => hspec.2.2 j hlt h⟩

theorem startsWith_iff_indexOf? : startsWith t s = true ↔ indexOf? t s = some 0 := by
  rw [startsWith_iff]
  constructor
  · intro h
    obtain ⟨i, hi, hle⟩ := indexOf?_of_prefix (j := 0) h
    rwa [Nat.le_zero.mp hle] at hi
  · exact fun h => (prefix_of_indexOf? h).2

/-! ## Bytes -/

/-- The bytes of characters. -/
def utf8 (cs : List Char) : List UInt8 := cs.flatMap String.utf8EncodeChar

/-- The bytes of the first text stand among those of the second one, after so many of them. -/
def StandsAt (t s : List Char) (n : Nat) : Prop := utf8 t <+: (utf8 s).drop n

theorem utf8_cons (c : Char) (cs : List Char) :
    utf8 (c :: cs) = String.utf8EncodeChar c ++ utf8 cs := rfl

theorem utf8_append (cs ds : List Char) : utf8 (cs ++ ds) = utf8 cs ++ utf8 ds :=
  List.flatMap_append

/-- Bytes that begin like others are those of characters that begin like the others. -/
theorem utf8_prefix_iff : utf8 t <+: utf8 s ↔ t <+: s := by
  constructor
  · rintro ⟨bytes, hbytes⟩
    refine List.isPrefix_of_utf8Encode_append_eq_utf8Encode bytes.toByteArray ?_
    show (utf8 t).toByteArray ++ bytes.toByteArray = (utf8 s).toByteArray
    rw [← hbytes, List.toByteArray_append]
  · rintro ⟨more, rfl⟩
    rw [utf8_append]
    exact List.prefix_append _ _

/-- The first byte of characters is none in the middle of a character. -/
theorem not_utf8_prefix_inside {c : Char} (ht : t ≠ []) (hpos : 0 < n)
    (hn : n < (String.utf8EncodeChar c).length) (bytes : List UInt8) :
    ¬ utf8 t <+: (String.utf8EncodeChar c ++ bytes).drop n := by
  obtain ⟨d, t, rfl⟩ := List.exists_cons_of_ne_nil ht
  rintro ⟨more, hmore⟩
  have hd : 0 < (String.utf8EncodeChar d).length :=
    List.length_pos_iff.mpr String.utf8EncodeChar_ne_nil
  have hleft : (utf8 (d :: t) ++ more)[0]? = some (String.utf8EncodeChar d)[0] := by
    rw [utf8_cons, List.append_assoc, List.getElem?_append_left hd, List.getElem?_eq_getElem hd]
  have hright : ((String.utf8EncodeChar c ++ bytes).drop n)[0]? =
      some (String.utf8EncodeChar c)[n] := by
    rw [List.getElem?_drop, Nat.add_zero, List.getElem?_append_left hn,
      List.getElem?_eq_getElem hn]
  rw [hmore, hright, Option.some.injEq] at hleft
  -- The one byte is the first of `d`, the other one a later byte of `c`.
  have hfirst := UInt8.isUTF8FirstByte_getElem_zero_utf8EncodeChar (c := d)
  rw [← hleft, UInt8.isUTF8FirstByte_getElem_utf8EncodeChar] at hfirst
  omega

theorem utf8_eq_nil_iff {cs : List Char} : utf8 cs = [] ↔ cs = [] := by
  cases cs with
  | nil => exact iff_of_true rfl rfl
  | cons c cs =>
    refine iff_of_false (fun h => ?_) (List.cons_ne_nil _ _)
    exact String.utf8EncodeChar_ne_nil (List.append_eq_nil_iff.mp h).1

/-- The bytes of a text stand only where the text stands. -/
theorem StandsAt.at_char (ht : t ≠ []) (h : StandsAt t s n) :
    ∃ j, n = (utf8 (s.take j)).length ∧ t <+: s.drop j := by
  induction s generalizing n with
  | nil =>
    unfold StandsAt at h
    rw [show utf8 [] = [] from rfl, List.drop_nil, List.prefix_nil, utf8_eq_nil_iff] at h
    exact absurd h ht
  | cons c s ih =>
    rcases Nat.eq_zero_or_pos n with rfl | hpos
    · exact ⟨0, rfl, utf8_prefix_iff.mp h⟩
    unfold StandsAt at h
    rw [utf8_cons] at h
    rcases Nat.lt_or_ge n (String.utf8EncodeChar c).length with hlt | hge
    · exact absurd h (not_utf8_prefix_inside ht hpos hlt _)
    · rw [List.drop_append, List.drop_of_length_le hge, List.nil_append] at h
      obtain ⟨j, hj, hprefix⟩ := ih h
      refine ⟨j + 1, ?_, hprefix⟩
      rw [List.take_succ_cons, utf8_cons, List.length_append, ← hj]
      omega

theorem standsAt_char (h : t <+: s.drop j) : StandsAt t s (utf8 (s.take j)).length := by
  unfold StandsAt
  have hsplit : utf8 s = utf8 (s.take j) ++ utf8 (s.drop j) := by
    rw [← utf8_append, List.take_append_drop]
  rw [hsplit, List.drop_left]
  exact utf8_prefix_iff.mpr h

theorem length_utf8_take_le (h : i ≤ j) (s : List Char) :
    (utf8 (s.take i)).length ≤ (utf8 (s.take j)).length := by
  obtain ⟨more, hmore⟩ := List.take_prefix_take_left h (l := s)
  rw [← hmore, utf8_append, List.length_append]
  exact Nat.le_add_right _ _

/-- The first occurrence among the characters is the first one among the bytes. -/
theorem indexOf?_bytes (h : indexOf? t s = some i) :
    IsLeast {n | StandsAt t s n} (utf8 (s.take i)).length := by
  refine ⟨standsAt_char (prefix_of_indexOf? h).2, fun n hn => ?_⟩
  -- No bytes stand in the middle of characters too, but before that they stand at the start.
  by_cases ht : t = []
  · subst ht
    obtain ⟨i', hi', hle⟩ := indexOf?_of_prefix (s := s) (j := 0) List.nil_prefix
    rw [h, Option.some.injEq] at hi'
    rw [hi', Nat.le_zero.mp hle]
    exact Nat.zero_le n
  · obtain ⟨j, rfl, hprefix⟩ := StandsAt.at_char ht hn
    obtain ⟨i', hi', hle⟩ := indexOf?_of_prefix hprefix
    rw [h, Option.some.injEq] at hi'
    exact length_utf8_take_le (hi' ▸ hle) s

theorem not_standsAt_of_none (h : indexOf? t s = none) (n : Nat) : ¬ StandsAt t s n := by
  intro hn
  have hne : t ≠ [] := by
    rintro rfl
    obtain ⟨i, hi, -⟩ := indexOf?_of_prefix (s := s) (j := 0) List.nil_prefix
    rw [h] at hi
    cases hi
  obtain ⟨j, -, hprefix⟩ := StandsAt.at_char hne hn
  obtain ⟨i, hi, -⟩ := indexOf?_of_prefix hprefix
  rw [h] at hi
  cases hi

end Search

/-! ## Arguments and answers -/

/-- The integer that a value stands for as a position: one of at most 64 bits, or the code of a
character. -/
def Value.position? : Value → Option Int
  | .byte n => some n.toInt
  | .short n => some n.toInt
  | .int n => some n.toInt
  | .long n => some n.toInt
  | .char c => some c.toNat
  | _ => none

namespace Builtin

variable {h : Heap} {v w : Value} {j : Int} {n : Nat}

theorem asWord_of_position (h : Heap) (hv : v.position? = some j) :
    ∃ k : Int64, asWord h v = .ok k ∧ k.toInt = j := by
  cases v with
  | byte n =>
    cases hv
    exact ⟨_, rfl, Int8.toInt_toInt64 n⟩
  | short n =>
    cases hv
    exact ⟨_, rfl, Int16.toInt_toInt64 n⟩
  | int n =>
    cases hv
    exact ⟨_, rfl, Int32.toInt_toInt64 n⟩
  | long n =>
    cases hv
    exact ⟨_, rfl, rfl⟩
  | char c =>
    cases hv
    refine ⟨_, rfl, ?_⟩
    have hc : c.toNat < 2 ^ 32 := c.val.toNat_lt
    exact Int64.toInt_ofNat_of_lt (by omega)
  | _ => cases hv

theorem asWord_of_no_position (h : Heap) (hv : v.position? = none) :
    ∃ e, asWord h v = .error e := by
  cases v with
  | byte | short | int | long | char => cases hv
  | _ => exact ⟨_, rfl⟩

/-- Positions are the integers that are not negative. -/
theorem asIndex_of_position (h : Heap) (hv : v.position? = some j) (hj : 0 ≤ j) :
    asIndex h v = .ok j.toNat := by
  obtain ⟨k, hk, rfl⟩ := asWord_of_position h hv
  have hneg : ¬ k < 0 := by
    rw [Int64.lt_iff_toInt_lt]
    exact Int.not_lt.mpr hj
  rw [asIndex, hk]
  show (if k < 0 then _ else _) = _
  rw [if_neg hneg]
  rfl

theorem asIndex_refused (h : Heap) (hv : ∀ j, v.position? = some j → j < 0) :
    ∃ e, asIndex h v = .error e := by
  cases hp : v.position? with
  | none =>
    obtain ⟨e, he⟩ := asWord_of_no_position h hp
    exact ⟨e, by rw [asIndex, he]; rfl⟩
  | some j =>
    obtain ⟨k, hk, rfl⟩ := asWord_of_position h hp
    have hneg : k < 0 := by
      rw [Int64.lt_iff_toInt_lt]
      exact hv _ hp
    rw [asIndex, hk]
    show ∃ e, (if k < 0 then _ else _) = _
    rw [if_pos hneg]
    exact ⟨_, rfl⟩

theorem position_of_asIndex (hn : asIndex h v = .ok n) :
    ∃ j, v.position? = some j ∧ 0 ≤ j ∧ n = j.toNat := by
  have hrefused {e : Failure} (he : asIndex h v = .error e) : False := by
    rw [he] at hn
    cases hn
  cases hv : v.position? with
  | none =>
    obtain ⟨e, he⟩ := asIndex_refused h (v := v) (by rw [hv]; exact nofun)
    exact (hrefused he).elim
  | some j =>
    by_cases hj : 0 ≤ j
    · rw [asIndex_of_position h hv hj, Except.ok.injEq] at hn
      exact ⟨j, rfl, hj, hn.symm⟩
    · obtain ⟨e, he⟩ := asIndex_refused h (v := v) fun i hi => by
        rw [hv, Option.some.injEq] at hi
        omega
      exact (hrefused he).elim

theorem bind_position (h : Heap) (hv : v.position? = some j) (hj : 0 ≤ j)
    (f : Nat → Except Failure Value) : (do f (← asIndex h v)) = f j.toNat := by
  rw [asIndex_of_position h hv hj]
  rfl

/-- An argument that stands for no position before a limit is refused, or used behind it. -/
theorem bind_outside {limit : Nat} (h : Heap)
    (hv : ∀ j, v.position? = some j → ¬ (0 ≤ j ∧ j < limit)) {f : Nat → Except Failure Value}
    (hf : ∀ n, limit ≤ n → ∃ e, f n = .error e) : ∃ e, (do f (← asIndex h v)) = .error e := by
  cases hindex : asIndex h v with
  | error e => exact ⟨e, rfl⟩
  | ok n =>
    obtain ⟨j, hj, hpos, rfl⟩ := position_of_asIndex hindex
    have hout := hv j hj
    exact hf _ (by omega)

/-- The method of texts with this name and these parameters. -/
def textMethod? (name : String) (params : List TypeRef) : Option Method :=
  Builtin.string.members.methods.find? fun m => m.name == name && m.params == params

/-- Called with these arguments, the method of the text has this value and changes nothing. -/
def Answers (s name : String) (params : List TypeRef) (args : List Value) (v : Value) : Prop :=
  ∃ m, textMethod? name params = some m ∧
    ∀ (host : Host) (handle : Handler) (w : World), m.run host handle (.text s) args w = .value v w

/-- Called with these arguments, the method of the text fails and changes nothing. -/
def Refuses (s name : String) (params : List TypeRef) (args : List Value) : Prop :=
  ∃ m, textMethod? name params = some m ∧
    ∀ (host : Host) (handle : Handler) (w : World),
      ∃ e, m.run host handle (.text s) args w = .fault e w

variable {s t name : String} {params : List TypeRef} {args : List Value} {m : Method}
variable {f : Heap → Value → List Value → Except Failure Value}

/-- Code that only looks at the heap has the outcome of what it computes. -/
theorem run_look (hm : m.body = some fun self args => .look fun h => f h self args) (host : Host)
    (handle : Handler) (self : Value) (args : List Value) (w : World) :
    m.run host handle self args w =
      match f w.heap self args with
      | .ok v => .value v w
      | .error e => .fault e.toFault w := by
  have hlook : (HostCode.look fun h => f h self args).perform host handle w =
      .value (f w.heap self args) w := rfl
  rw [Method.run, hm]
  refine (Action.bind_value hlook).trans ?_
  cases f w.heap self args <;> rfl

theorem Answers.of_look (hm : textMethod? name params = some m)
    (hbody : m.body = some fun self args => .look fun h => f h self args)
    (hf : ∀ h, f h (.text s) args = .ok v) : Answers s name params args v := by
  refine ⟨m, hm, fun host handle w => ?_⟩
  rw [run_look hbody, hf]

theorem Refuses.of_look (hm : textMethod? name params = some m)
    (hbody : m.body = some fun self args => .look fun h => f h self args)
    (hf : ∀ h, ∃ e, f h (.text s) args = .error e) : Refuses s name params args := by
  refine ⟨m, hm, fun host handle w => ?_⟩
  obtain ⟨e, he⟩ := hf w.heap
  exact ⟨e.toFault, by rw [run_look hbody, he]⟩

/-- A method that has an answer has computed it. -/
theorem Answers.look (h : Answers s name params args v) (hm : textMethod? name params = some m)
    (hbody : m.body = some fun self args => .look fun h => f h self args) :
    ∃ h, f h (.text s) args = .ok v := by
  obtain ⟨m', hm', hrun⟩ := h
  rw [hm, Option.some.injEq] at hm'
  subst hm'
  have hvalue := hrun .bare (Evaluation.evaluator .bare) (.fresh .bare .none)
  rw [run_look hbody] at hvalue
  split at hvalue
  · next hf =>
    cases hvalue
    exact ⟨_, hf⟩
  · cases hvalue

/-! ## Methods of texts -/

theorem answers_length (s : String) : Answers s "length" [] [] (intOf s.length) :=
  .of_look rfl rfl fun _ => rfl

theorem answers_indexOf (s t : String) :
    Answers s "indexOf" [.string] [.text t] (indexOf s t) := .of_look rfl rfl fun _ => rfl

theorem answers_contains (s t : String) :
    Answers s "contains" [.string] [.text t] (.bool (contains s t)) := .of_look rfl rfl fun _ => rfl

theorem answers_startsWith (s t : String) :
    Answers s "startsWith" [.string] [.text t] (.bool (Search.startsWith t.toList s.toList)) :=
  .of_look rfl rfl fun _ => rfl

theorem answers_concat (s t : String) :
    Answers s "concat" [.string] [.text t] (.text (s ++ t)) := .of_look rfl rfl fun _ => rfl

theorem substring_ok {cs : List Char} {j k : Nat} (hjk : j ≤ k) (hk : k ≤ cs.length) :
    substring cs j k = .ok (.text (String.ofList ((cs.take k).drop j))) := by
  rw [substring, if_neg]
  simp only [Bool.or_eq_true, decide_eq_true_eq]
  omega

theorem substring_refused {cs : List Char} {j k : Nat} (h : ¬ (j ≤ k ∧ k ≤ cs.length)) :
    ∃ e, substring cs j k = .error e := by
  rw [substring, if_pos]
  · exact ⟨_, rfl⟩
  · simp only [Bool.or_eq_true, decide_eq_true_eq]
    omega

theorem answers_substring {j k : Int} (hv : v.position? = some j) (hw : w.position? = some k)
    (hj : 0 ≤ j) (hjk : j ≤ k) (hk : k ≤ s.length) :
    Answers s "substring" [intType, intType] [v, w]
      (.text (String.ofList ((s.toList.take k.toNat).drop j.toNat))) := by
  refine .of_look rfl rfl fun h => ?_
  refine (bind_position h hv hj fun a => do substring s.toList a (← asIndex h w)).trans ?_
  rw [bind_position h hw (by omega)]
  exact substring_ok (by omega) (by rw [String.length_toList]; omega)

/-- What lies between two arguments is an answer only for positions of the text in their order. -/
theorem positions_of_substring {r : String}
    (hr : Answers s "substring" [intType, intType] [v, w] (.text r)) :
    ∃ j k : Int, v.position? = some j ∧ w.position? = some k ∧ 0 ≤ j ∧ j ≤ k ∧ k ≤ s.length ∧
      r.toList = (s.toList.take k.toNat).drop j.toNat := by
  obtain ⟨h, hcode⟩ := hr.look rfl rfl
  change (do substring s.toList (← asIndex h v) (← asIndex h w)) = Except.ok (Value.text r) at hcode
  cases hv : asIndex h v with
  | error e =>
    rw [hv] at hcode
    cases hcode
  | ok a =>
    cases hw : asIndex h w with
    | error e =>
      rw [hv, hw] at hcode
      cases hcode
    | ok b =>
      rw [hv, hw] at hcode
      change substring s.toList a b = .ok (.text r) at hcode
      obtain ⟨j, hj, hjpos, rfl⟩ := position_of_asIndex hv
      obtain ⟨k, hk, hkpos, rfl⟩ := position_of_asIndex hw
      by_cases hin : j.toNat ≤ k.toNat ∧ k.toNat ≤ s.toList.length
      · obtain ⟨hjk, hlength⟩ := hin
        rw [substring_ok hjk hlength, Except.ok.injEq, Value.text.injEq] at hcode
        rw [String.length_toList] at hlength
        refine ⟨j, k, hj, hk, hjpos, by omega, by omega, ?_⟩
        rw [← hcode, String.toList_ofList]
      · obtain ⟨e, he⟩ := substring_refused hin
        rw [he] at hcode
        cases hcode

theorem answers_rest (hv : v.position? = some j) (hj : 0 ≤ j) (hlength : j ≤ s.length) :
    Answers s "substring" [intType] [v] (.text (String.ofList (s.toList.drop j.toNat))) := by
  refine .of_look rfl rfl fun h => (bind_position h hv hj _).trans ?_
  rw [substring_ok (by rw [String.length_toList]; omega) (Nat.le_refl _), List.take_length]

theorem refuses_rest (hv : ∀ j, v.position? = some j → ¬ (0 ≤ j ∧ j < (s.length + 1 : Nat))) :
    Refuses s "substring" [intType] [v] := by
  refine .of_look rfl rfl fun h => bind_outside h hv fun n hn => substring_refused ?_
  rw [String.length_toList]
  omega

theorem refuses_start (hv : ∀ j, v.position? = some j → ¬ (0 ≤ j ∧ j < (s.length + 1 : Nat))) :
    Refuses s "substring" [intType, intType] [.int 0, v] := by
  refine .of_look rfl rfl fun h => bind_outside h hv fun n hn => substring_refused ?_
  rw [String.length_toList]
  omega

/-- The character at a position. -/
def charAt (cs : List Char) (i : Nat) : Except Failure Value :=
  match cs[i]? with
  | some c => pure (.char c)
  | none => fail ("index " ++ toString i ++ " out of bounds for length " ++ toString cs.length)

theorem answers_charAt (hv : v.position? = some j) (hj : 0 ≤ j) {c : Char}
    (hc : s.toList[j.toNat]? = some c) : Answers s "charAt" [intType] [v] (.char c) := by
  refine .of_look rfl rfl fun h => (bind_position h hv hj (charAt s.toList)).trans ?_
  rw [charAt, hc]
  rfl

theorem refuses_charAt (hv : ∀ j, v.position? = some j → ¬ (0 ≤ j ∧ j < s.length)) :
    Refuses s "charAt" [intType] [v] := by
  refine .of_look rfl rfl fun h => bind_outside h hv (f := charAt s.toList) fun n hn => ?_
  have hnone : s.toList[n]? = none := by
    rw [List.getElem?_eq_none_iff, String.length_toList]
    exact hn
  rw [charAt, hnone]
  exact ⟨_, rfl⟩

theorem Answers.unique {v v' : Value} (h : Answers s name params args v)
    (h' : Answers s name params args v') : v = v' := by
  obtain ⟨m, hm, hrun⟩ := h
  obtain ⟨m', hm', hrun'⟩ := h'
  rw [hm, Option.some.injEq] at hm'
  subst hm'
  have hsame := (hrun .bare (Evaluation.evaluator .bare) (.fresh .bare .none)).symm.trans
    (hrun' .bare (Evaluation.evaluator .bare) (.fresh .bare .none))
  cases hsame
  rfl

/-! ## Positions -/

/-- What the methods tell of a text in another one. It is found at `i`, and its length is `n`. -/
structure Finds (s t : String) (i n : Int32) : Prop where
  indexOf : Answers s "indexOf" [.string] [.text t] (.int i)
  contains : Answers s "contains" [.string] [.text t] (.bool (i ≠ -1))
  startsWith : Answers s "startsWith" [.string] [.text t] (.bool (i = 0))
  found : i ≠ -1 → ∀ v w : Value, v.position? = some i.toInt →
    w.position? = some (i.toInt + n.toInt) →
    Answers s "substring" [intType, intType] [v, w] (.text t)
  least : ∀ (v w : Value) (j : Int), v.position? = some j → w.position? = some (j + n.toInt) →
    Answers s "substring" [intType, intType] [v, w] (.text t) → i ≠ -1 ∧ i.toInt ≤ j
  /-- Its bytes stand for the first time behind those of the characters before `i`. -/
  bytes : i ≠ -1 → IsLeast {k | Search.StandsAt t.toList s.toList k}
    (Search.utf8 (s.toList.take i.toInt.toNat)).length
  noBytes : i = -1 → ∀ k, ¬ Search.StandsAt t.toList s.toList k

/-- What the methods do with an argument as a position in a text of length `m`. -/
structure Divides (s : String) (m : Int32) (v : Value) : Prop where
  char : ∀ j, v.position? = some j → 0 ≤ j → j < m.toInt →
    ∃ c, Answers s "charAt" [intType] [v] (.char c) ∧
      ∀ w : Value, w.position? = some (j + 1) →
        Answers s "substring" [intType, intType] [v, w] (.text (String.singleton c))
  noChar : (∀ j, v.position? = some j → ¬ (0 ≤ j ∧ j < m.toInt)) →
    Refuses s "charAt" [intType] [v]
  parts : ∀ j, v.position? = some j → 0 ≤ j → j ≤ m.toInt →
    ∃ a b, Answers s "substring" [intType, intType] [.int 0, v] (.text a) ∧
      Answers s "substring" [intType] [v] (.text b) ∧
      Answers a "concat" [.string] [.text b] (.text s)
  noParts : (∀ j, v.position? = some j → ¬ (0 ≤ j ∧ j ≤ m.toInt)) →
    Refuses s "substring" [intType, intType] [.int 0, v] ∧ Refuses s "substring" [intType] [v]

/-- Between a position and the one that a text ends at stands the text just where it occurs. -/
theorem answers_occurrence_iff {j : Int} (hv : v.position? = some j)
    (hw : w.position? = some (j + t.length)) :
    Answers s "substring" [intType, intType] [v, w] (.text t) ↔
      0 ≤ j ∧ j ≤ s.length ∧ t.toList <+: s.toList.drop j.toNat := by
  constructor
  · intro hanswers
    obtain ⟨j', k, hj', hk, hpos, hjk, hlength, htext⟩ := positions_of_substring hanswers
    rw [hv, Option.some.injEq] at hj'
    rw [hw, Option.some.injEq] at hk
    subst hj' hk
    refine ⟨hpos, by omega, ?_⟩
    rw [htext, List.drop_take]
    exact List.take_prefix _ _
  · rintro ⟨hpos, hle, hprefix⟩
    have hlength := hprefix.length_le
    rw [List.length_drop, String.length_toList, String.length_toList] at hlength
    have hanswers := answers_substring (s := s) hv hw hpos (by omega) (by omega)
    have htext : (s.toList.take (j + t.length).toNat).drop j.toNat = t.toList := by
      rw [List.drop_take, show (j + t.length).toNat - j.toNat = t.toList.length by
        rw [String.length_toList]; omega]
      exact (List.prefix_iff_eq_take.mp hprefix).symm
    rwa [htext, String.ofList_toList] at hanswers

theorem toInt_ofNat {n : Nat} (hn : n < 2 ^ 31) : (Int32.ofNat n).toInt = n :=
  Int32.toInt_ofNat_of_lt hn

/-- A text that is nowhere in the other one. -/
theorem finds_none (ht : t.length < 2 ^ 31) (h : Search.indexOf? t.toList s.toList = none) :
    Finds s t (-1) (Int32.ofNat t.length) where
  indexOf := by
    have hindex : indexOf s t = .int (-1) := by rw [indexOf, h]
    exact hindex ▸ answers_indexOf s t
  contains := by
    have hanswers := answers_contains s t
    rw [contains, h] at hanswers
    exact hanswers
  startsWith := by
    have hstarts : Search.startsWith t.toList s.toList = false := by
      rw [Bool.eq_false_iff, Ne, Search.startsWith_iff_indexOf?, h]
      exact nofun
    have hanswers := answers_startsWith s t
    rw [hstarts] at hanswers
    exact hanswers
  found := fun hne => absurd rfl hne
  least := by
    intro v w j hv hw hanswers
    rw [toInt_ofNat ht] at hw
    obtain ⟨-, -, hprefix⟩ := (answers_occurrence_iff hv hw).mp hanswers
    obtain ⟨i, hi, -⟩ := Search.indexOf?_of_prefix hprefix
    rw [h] at hi
    cases hi
  bytes := fun hne => absurd rfl hne
  noBytes := fun _ => Search.not_standsAt_of_none h

/-- A text that stands in the other one. -/
theorem finds_some (hs : s.length < 2 ^ 31) (ht : t.length < 2 ^ 31) {i : Nat}
    (h : Search.indexOf? t.toList s.toList = some i) :
    Finds s t (Int32.ofNat i) (Int32.ofNat t.length) := by
  obtain ⟨hle, hprefix⟩ := Search.prefix_of_indexOf? h
  rw [String.length_toList] at hle
  have hi : (Int32.ofNat i).toInt = i := toInt_ofNat (by omega)
  have hn : (Int32.ofNat t.length).toInt = t.length := toInt_ofNat ht
  have hfound : Int32.ofNat i ≠ -1 := by
    intro heq
    rw [heq] at hi
    have hminus : (-1 : Int32).toInt = -1 := rfl
    omega
  have hzero : Int32.ofNat i = 0 ↔ i = 0 := by
    rw [← Int32.toInt_inj, hi]
    exact Int.natCast_eq_zero
  exact {
    indexOf := by
      have hindex : indexOf s t = .int (Int32.ofNat i) := by rw [indexOf, h]; rfl
      exact hindex ▸ answers_indexOf s t
    contains := by
      have hcontains : contains s t = true := by rw [contains, h]; rfl
      rw [decide_eq_true hfound]
      exact hcontains ▸ answers_contains s t
    startsWith := by
      have hstarts : Search.startsWith t.toList s.toList = decide (Int32.ofNat i = 0) := by
        rw [Bool.eq_iff_iff, Search.startsWith_iff_indexOf?, h, decide_eq_true_iff, hzero,
          Option.some.injEq]
      exact hstarts ▸ answers_startsWith s t
    found := by
      intro _ v w hv hw
      rw [hi] at hv hw
      rw [hn] at hw
      exact (answers_occurrence_iff hv hw).mpr ⟨by omega, by omega, hprefix⟩
    least := by
      intro v w j hv hw hanswers
      rw [hn] at hw
      obtain ⟨hpos, -, hstands⟩ := (answers_occurrence_iff hv hw).mp hanswers
      obtain ⟨i', hi', hle'⟩ := Search.indexOf?_of_prefix hstands
      rw [h, Option.some.injEq] at hi'
      exact ⟨hfound, by omega⟩
    bytes := by
      intro _
      rw [hi]
      exact Search.indexOf?_bytes h
    noBytes := fun heq => absurd heq hfound }

/-- An argument divides a text at its position, or it is refused. -/
theorem divides (hs : s.length < 2 ^ 31) (v : Value) : Divides s (Int32.ofNat s.length) v where
  char := by
    intro j hv hj hlt
    rw [toInt_ofNat hs] at hlt
    have hbound : j.toNat < s.toList.length := by
      rw [String.length_toList]
      omega
    refine ⟨s.toList[j.toNat], answers_charAt hv hj (List.getElem?_eq_getElem hbound), ?_⟩
    intro w hw
    have hend : w.position? = some (j + (String.singleton s.toList[j.toNat]).length) := by
      rw [hw, String.length_singleton]
      rfl
    refine (answers_occurrence_iff hv hend).mpr ⟨hj, by omega, ?_⟩
    rw [List.drop_eq_getElem_cons hbound, String.toList_singleton]
    exact List.prefix_append [_] _
  noChar := by
    intro hv
    rw [toInt_ofNat hs] at hv
    exact refuses_charAt hv
  parts := by
    intro j hv hj hle
    rw [toInt_ofNat hs] at hle
    have hzero : (Value.int 0).position? = some 0 := rfl
    refine ⟨_, _, answers_substring hzero hv (Int.le_refl 0) hj hle, answers_rest hv hj hle, ?_⟩
    have hwhole : String.ofList ((s.toList.take j.toNat).drop (0 : Int).toNat) ++
        String.ofList (s.toList.drop j.toNat) = s := by
      rw [← String.ofList_append, Int.toNat_zero, List.drop_zero, List.take_append_drop,
        String.ofList_toList]
    have hanswers := answers_concat (String.ofList ((s.toList.take j.toNat).drop (0 : Int).toNat))
      (String.ofList (s.toList.drop j.toNat))
    rwa [hwhole] at hanswers
  noParts := by
    intro hv
    rw [toInt_ofNat hs] at hv
    have hout : ∀ j, v.position? = some j → ¬ (0 ≤ j ∧ j < (s.length + 1 : Nat)) := by
      intro j hj
      have := hv j hj
      omega
    exact ⟨refuses_start hout, refuses_rest hout⟩

/-- The methods of texts count the same characters. A text occurs where it is said to be found and
nowhere before, be the places counted in characters or in bytes, and positions divide a text from
its start to its end. The arguments are the values that the methods themselves are given. -/
theorem text_positions_agree {s t : String} (hs : s.length < 2 ^ 31) (ht : t.length < 2 ^ 31) :
    ∃ i n m : Int32, Answers t "length" [] [] (.int n) ∧ Answers s "length" [] [] (.int m) ∧
      Finds s t i n ∧ ∀ v, Divides s m v := by
  cases h : Search.indexOf? t.toList s.toList with
  | none =>
    exact ⟨_, _, _, answers_length t, answers_length s, finds_none ht h, divides hs⟩
  | some i =>
    exact ⟨_, _, _, answers_length t, answers_length s, finds_some hs ht h, divides hs⟩

/-- Letters of one, two and four bytes, the last ones found behind three characters. -/
theorem text_positions_agree_letters :
    "aüü😀b".length < 2 ^ 31 ∧ "😀b".length < 2 ^ 31 ∧
      Finds "aüü😀b" "😀b" 3 2 ∧ ∀ v, Divides "aüü😀b" 5 v := by
  have hs : "aüü😀b".length < 2 ^ 31 := by decide
  have ht : "😀b".length < 2 ^ 31 := by decide
  obtain ⟨i, n, m, hn, hm, hfinds, hdivides⟩ := text_positions_agree hs ht
  have hi : Answers "aüü😀b" "indexOf" [.string] [.text "😀b"] (.int 3) :=
    answers_indexOf "aüü😀b" "😀b"
  cases hfinds.indexOf.unique hi
  cases hn.unique (answers_length "😀b")
  cases hm.unique (answers_length "aüü😀b")
  exact ⟨hs, ht, hfinds, hdivides⟩

end Builtin

end ExprLang
