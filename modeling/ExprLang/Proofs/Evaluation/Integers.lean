import ExprLang.Evaluation.Step
import ExprLang.Proofs.Action
import ExprLang.Proofs.Number.Digits
import ExprLang.Proofs.Template

/-! What the text of an integer stands for. The sign is an operator of its own: it comes after the
size of the digits has told what kind of number they are, and keeps that kind. -/

namespace ExprLang

variable {c : Char} {cs : List Char} {text : String} {v v' : Value} {n : Nat}

/-- The text is an expression, also as a segment, and it has the value wherever it is evaluated. -/
def Denotes (text : String) (v : Value) : Prop :=
  ∃ node, parseExpression text = .ok node ∧
    parseTemplate ("$\x7b" ++ text ++ "\x7d") = .ok node ∧
    ∀ (host : Host) (b : Bound) (w : World),
      Evaluation.evaluator host (.eval b node) w = .value v w

theorem Denotes.unique (h : Denotes text v) (h' : Denotes text v') : v = v' := by
  obtain ⟨node, hparse, -, heval⟩ := h
  obtain ⟨node', hparse', -, heval'⟩ := h'
  rw [hparse] at hparse'
  cases hparse'
  have hsame := (heval .bare .empty (.fresh .bare .none)).symm.trans
    (heval' .bare .empty (.fresh .bare .none))
  cases hsame
  rfl

/-! ## Reading -/

namespace Lexer

theorem isSpace_of_isDigit (h : isDigit c = true) : isSpace c = false := by
  cases hs : isSpace c with
  | false => rfl
  | true =>
    rw [isDigit_of_isSpace hs] at h
    cases h

theorem lexFrom_digits (h : ∀ d ∈ c :: cs, isDigit d = true) (o : Nat) :
    ∃ span, lexFrom o (c :: cs) = .ok [⟨.integer (String.ofList (c :: cs)), span⟩] := by
  have hs := isSpace_of_isDigit (h c List.mem_cons_self)
  have htoken : tokenAt c (cs ++ []) = (some (.integer (String.ofList (c :: cs))), cs.length) := by
    rw [List.append_nil]
    exact tokenAt_digits h
  have hnext := next_found (o := o) hs htoken
  rw [List.append_nil] at hnext
  exact ⟨_, lexFrom_cons hnext (lexFrom_finished rfl)⟩

/-- No longer sign starts with a minus in front of a digit. -/
theorem tokenAt_minus (h : isDigit c = true) (cs : List Char) :
    tokenAt '-' (c :: cs) = (some (.symbol .minus), 0) := by
  have harrow : ('>' == c) = false := by
    rw [beq_eq_false_iff_ne]
    rintro rfl
    cases h
  have hsymbol : symbolAt? ('-' :: c :: cs) = some .minus := by
    have hprefix (s : Symbol) : s.spelling.toList.isPrefixOf ('-' :: c :: cs) = (s == .minus) := by
      cases s <;> first | rfl | simp [Symbol.spelling, List.isPrefixOf, harrow]
    simp only [symbolAt?, hprefix]
    rfl
  exact tokenAt_symbol rfl rfl rfl hsymbol

theorem lexFrom_negative (h : ∀ d ∈ c :: cs, isDigit d = true) (o : Nat) :
    ∃ sign span, lexFrom o ('-' :: c :: cs) =
      .ok [⟨.symbol .minus, sign⟩, ⟨.integer (String.ofList (c :: cs)), span⟩] := by
  have htoken : tokenAt '-' ([] ++ c :: cs) = (some (.symbol .minus), ([] : List Char).length) :=
    tokenAt_minus (h c List.mem_cons_self) cs
  have hnext := next_found (o := o) (c := '-') rfl htoken
  obtain ⟨span, hdigits⟩ := lexFrom_digits h (o + byteLength ['-'])
  exact ⟨_, span, lexFrom_cons hnext hdigits⟩

end Lexer

/-- The digits of a number, without a sign and with one. -/
theorem parseExpression_digits (n : Nat) :
    parseExpression (toString (n : Int)) = .ok (.integer (toString (n : Int))) ∧
    parseExpression (String.ofList ('-' :: (toString (n : Int)).toList)) =
      .ok (.unary .neg (.integer (toString (n : Int)))) := by
  obtain ⟨c, cs, hcs, -⟩ := toDigits_eq_cons n
  have htext : (toString (n : Int)).toList = c :: cs := by
    rw [toList_toString_int, if_pos (Int.natCast_nonneg n), Int.toNat_natCast, hcs]
  have hdigits : ∀ d ∈ c :: cs, Lexer.isDigit d = true :=
    fun d hd => Binary.isDecimalDigit_toDigits (hcs ▸ hd)
  have hofList : String.ofList (c :: cs) = toString (n : Int) := by
    rw [← htext, String.ofList_toList]
  constructor
  · obtain ⟨span, hlex⟩ := Lexer.lexFrom_digits hdigits 0
    rw [parseExpression, tokenize, htext, hlex, hofList]
    rfl
  · obtain ⟨sign, span, hlex⟩ := Lexer.lexFrom_negative hdigits 0
    rw [parseExpression, tokenize, String.toList_ofList, htext, hlex, hofList]
    rfl

theorem parseTemplate_braced {node : Node} (h : parseExpression text = .ok node) :
    parseTemplate ("$\x7b" ++ text ++ "\x7d") = .ok node := by
  have htext : "$\x7b" ++ text ++ "\x7d" =
      String.ofList (Template.Marker.spelling .dynamic ++ text.toList ++ ['\x7d']) := by
    rw [← String.toList_inj]
    simp [Template.Marker.spelling]
  rw [htext]
  exact parseTemplate_segment .dynamic text h

/-! ## Evaluating -/

namespace Evaluation

variable (host : Host) (b : Bound) (w : World)

theorem integerLiteral_nat (n : Nat) :
    integerLiteral (toString (n : Int)) =
      .ok (if (n : Int) < 2 ^ 63 then .long (Int64.ofInt n) else .bigInt n) := by
  unfold integerLiteral
  split_ifs with hn
  · have hword : IntegerText.ofWidth 64 (toString (n : Int)) = .ok n :=
      IntegerText.ofWidth_toString (by omega) hn
    rw [hword]
  · have hword : IntegerText.ofWidth 64 (toString (n : Int)) = .error .tooLarge :=
      IntegerText.ofWidth_tooLarge (by omega)
    rw [hword, IntegerText.unbounded_toString]

theorem evaluator_integer (h : integerLiteral text = .ok v) :
    evaluator host (.eval b (.integer text)) w = .value v w := by
  show Action.ofExcept (integerLiteral text) w = _
  rw [h]
  rfl

/-- The depth that is left for the operand is still one that reaches a literal. -/
theorem evaluator_neg_integer (h : integerLiteral text = .ok v)
    (hneg : Arithmetic.neg w.heap v = .ok v') :
    evaluator host (.eval b (.unary .neg (.integer text))) w = .value v' w := by
  have hoperand : run host (depthLimit - 1) (.eval b (.integer text)) w = .value v w := by
    show Action.ofExcept (integerLiteral text) w = _
    rw [h]
    rfl
  have hstep : evaluator host (.eval b (.unary .neg (.integer text))) =
      unary (run host (depthLimit - 1)) b .neg (.integer text) := rfl
  rw [hstep, unary, Action.bind_value hoperand]
  show Action.ofExcept (Arithmetic.neg w.heap v) w = _
  rw [hneg]
  rfl

end Evaluation

/-- Any integer, written down. -/
theorem denotes_toString (n : Int) :
    Denotes (toString n)
      (if -2 ^ 63 < n ∧ n < 2 ^ 63 then .long (Int64.ofInt n) else .bigInt n) := by
  rcases Int.lt_or_le n 0 with hn | hn
  · obtain ⟨m, rfl⟩ : ∃ m : Nat, n = -(m : Int) := ⟨n.natAbs, by omega⟩
    have hparse := (parseExpression_digits m).2
    have htext : String.ofList ('-' :: (toString (m : Int)).toList) = toString (-(m : Int)) := by
      rw [← String.toList_inj, String.toList_ofList, toList_toString_int, toList_toString_int,
        if_pos (Int.natCast_nonneg m), if_neg (by omega), Int.neg_neg]
    rw [htext] at hparse
    refine ⟨_, hparse, parseTemplate_braced hparse, fun host b w => ?_⟩
    refine Evaluation.evaluator_neg_integer host b w (Evaluation.integerLiteral_nat m) ?_
    by_cases hm : (m : Int) < 2 ^ 63
    · rw [if_pos hm, if_pos (by omega), Int64.ofInt_neg]
      rfl
    · rw [if_neg hm, if_neg (by omega)]
      rfl
  · obtain ⟨m, rfl⟩ : ∃ m : Nat, n = (m : Int) := ⟨n.toNat, by omega⟩
    have hparse := (parseExpression_digits m).1
    refine ⟨_, hparse, parseTemplate_braced hparse, fun host b w => ?_⟩
    have hliteral := Evaluation.integerLiteral_nat m
    refine (Evaluation.evaluator_integer host b w hliteral).trans ?_
    by_cases hm : (m : Int) < 2 ^ 63
    · rw [if_pos hm, if_pos (by omega)]
    · rw [if_neg hm, if_neg (by omega)]

/-- A word, displayed. -/
theorem denotes_display_long (h : Heap) (n : Int64) :
    Denotes (h.display (.long n)) (if n = Int64.minValue then .bigInt n.toInt else .long n) := by
  have hdisplay : h.display (.long n) = toString n.toInt := rfl
  have hdenotes := denotes_toString n.toInt
  rw [hdisplay]
  have hlow := Int64.le_toInt n
  have hhigh := Int64.toInt_lt n
  by_cases hn : n = Int64.minValue
  · subst hn
    exact hdenotes
  · have hne : n.toInt ≠ -2 ^ 63 := fun heq => hn (Int64.toInt_inj.mp heq)
    rw [if_pos (by omega), Int64.ofInt_toInt] at hdenotes
    rwa [if_neg hn]

/-- Integers survive being written down, but for one. The text of an integer in decimal is evaluated
to the word that it is, or to the integer itself where it is no word. Only the least word is
evaluated to the integer: it is read as the opposite of a number that is no word, and the opposite
is a number of the same kind. So every word but the least one, displayed and evaluated, is itself
again. -/
theorem integers_survive :
    (∀ n : Int, Denotes (toString n)
      (if -2 ^ 63 < n ∧ n < 2 ^ 63 then .long (Int64.ofInt n) else .bigInt n)) ∧
    ∀ (h : Heap) (n : Int64), Denotes (h.display (.long n))
      (if n = Int64.minValue then .bigInt n.toInt else .long n) :=
  ⟨denotes_toString, denotes_display_long⟩

/-- The least word fits in 64 bits, and its text is evaluated to an integer of any size. -/
theorem least_word_lost :
    (-2 ^ 63 : Int) ≤ -9223372036854775808 ∧ (-9223372036854775808 : Int) < 2 ^ 63 ∧
      toString (-9223372036854775808 : Int) = "-9223372036854775808" ∧
      (World.fresh .bare .none).heap.display (.long Int64.minValue) = "-9223372036854775808" ∧
      Denotes "-9223372036854775808" (.bigInt (-9223372036854775808)) ∧
      ¬ Denotes "-9223372036854775808" (.long Int64.minValue) := by
  have htext : toString (-9223372036854775808 : Int) = "-9223372036854775808" := by decide +kernel
  have hdenotes := denotes_toString (-9223372036854775808)
  rw [htext] at hdenotes
  refine ⟨by omega, by omega, htext, ?_, hdenotes, fun hlong => ?_⟩
  · exact htext
  · cases hdenotes.unique hlong

end ExprLang
