import ExprLang.Proofs.Parser.Depth
import ExprLang.Proofs.Parser.Lookahead

/-! Phrases read from words. A phrase of one level is also a phrase of every looser level, as long
as no token follows that would go on with it there. -/

namespace ExprLang

/-- The level of the phrases that the token goes on with. -/
def Token.joins : Token → Option Nat
  | .symbol .semi => some 0
  | .symbol .eq => some 1
  | .symbol .question | .symbol .elvis | .symbol .questionQuestion => some 2
  | .symbol .pipePipe | .keyword .or => some 3
  | .symbol .ampAmp | .keyword .and => some 4
  | .symbol .eqEq | .keyword .eq | .symbol .notEq | .keyword .ne => some 5
  | .symbol .lt | .keyword .lt | .symbol .gt | .keyword .gt => some 6
  | .symbol .ltEq | .keyword .le | .symbol .gtEq | .keyword .ge => some 6
  | .symbol .plusEq => some 7
  | .symbol .plus | .symbol .minus => some 8
  | .symbol .star | .symbol .slash | .keyword .div | .symbol .percent | .keyword .mod => some 9
  | .symbol .dot | .symbol .lBracket => some 11
  | .symbol .lParen | .symbol .arrow => some 12
  | _ => none

namespace Parser

open Word

variable {α β : Type} {eof : Span} {n : Node} {ws rest : List Word} {o h h' : Nat}

/-- No token follows that goes on with a phrase of this level. -/
def Stops (h : Nat) (rest : List Word) : Prop :=
  ∀ t k, headToken? rest = some t → t.joins = some k → k < h

theorem Stops.mono (hr : Stops h rest) (hh : h ≤ h') : Stops h' rest :=
  fun t k ht hk => Nat.lt_of_lt_of_le (hr t k ht hk) hh

theorem Stops.ne {t : Token} {k : Nat} (hr : Stops h rest) (ht : t.joins = some k) (hk : h ≤ k) :
    headToken? rest ≠ some t :=
  fun heq => absurd (hr t k heq ht) (Nat.not_lt.mpr hk)

theorem stops_cons {w : Word} (hw : ∀ k, w.lead.joins = some k → k < h) (rest : List Word) :
    Stops h (w :: rest) := by
  intro t k ht hk
  cases ht
  exact hw k hk

/-- A token that goes on with no phrase of this level. -/
theorem stops_symbol {s : Symbol} (hs : (Token.symbol s).joins.all (· < h) = true)
    (rest : List Word) : Stops h (symbol s :: rest) := by
  refine stops_cons (fun k hk => ?_) rest
  have hk : (Token.symbol s).joins = some k := hk
  rw [hk] at hs
  simpa using hs

/-- The words are read as this phrase where nothing goes on with it at this level. -/
def Reads (eof : Span) (p : Phrase α) (h : Nat) (ws : List Word) (a : α) : Prop :=
  ∀ o rest, Stops h rest →
    read eof p (placed o (ws ++ rest)) = .found a (placed (after o ws) rest)

/-! ## Single tokens -/

theorem bind_found {x : Reader α} {f : α → Reader β} {a : α} {ts ts' : List Lexeme}
    (hx : x ts = .found a ts') : (x >>= f) ts = f a ts' := by
  show Reader.bind x f ts = f a ts'
  unfold Reader.bind
  rw [hx]

theorem eat_true (s : Symbol) (x y : Reader α) (o : Nat) (rest : List Word) :
    (eat s >>= fun taken => if taken then x else y) (placed o (symbol s :: rest)) =
      x (placed (after o [symbol s]) rest) := by
  have he : eat s (placed o (symbol s :: rest)) =
      .found true (placed (after o [symbol s]) rest) := if_pos rfl
  exact bind_found he

theorem eat_false {s : Symbol} (hs : headToken? rest ≠ some (.symbol s)) (x y : Reader α)
    (o : Nat) :
    (eat s >>= fun taken => if taken then x else y) (placed o rest) = y (placed o rest) := by
  cases rest with
  | nil => rfl
  | cons w rest =>
    obtain ⟨span, ls, hls⟩ := placed_cons o w rest
    have hw : w.lead ≠ .symbol s := fun heq => hs (congrArg some heq)
    have he : eat s (placed o (w :: rest)) = .found false (placed o (w :: rest)) := by
      rw [hls]
      exact if_neg hw
    exact bind_found he

theorem expect_symbol (s : Symbol) (x : Reader α) (o : Nat) (rest : List Word) :
    (expect eof s >>= fun _ => x) (placed o (symbol s :: rest)) =
      x (placed (after o [symbol s]) rest) := by
  have he : expect eof s (placed o (symbol s :: rest)) =
      .found () (placed (after o [symbol s]) rest) := if_pos rfl
  exact bind_found he

theorem expectName_name (name : String) (f : String → Reader α) (o : Nat) (rest : List Word) :
    (expectName eof >>= f) (placed o (Word.name name :: rest)) =
      f name (placed (after o [Word.name name]) rest) := rfl

theorem at_true (s : Symbol) (x y : Reader α) (o : Nat) (rest : List Word) :
    (at? s >>= fun next => if next then x else y) (placed o (symbol s :: rest)) =
      x (placed o (symbol s :: rest)) := by
  have hat : at? s (placed o (symbol s :: rest)) = .found true (placed o (symbol s :: rest)) :=
    congrArg (Reading.found · _) (beq_self_eq_true (Token.symbol s))
  exact bind_found hat

theorem at_false {s : Symbol} (hs : headToken? rest ≠ some (.symbol s)) (x y : Reader α)
    (o : Nat) :
    (at? s >>= fun next => if next then x else y) (placed o rest) = y (placed o rest) := by
  cases rest with
  | nil => rfl
  | cons w rest =>
    obtain ⟨span, ls, hls⟩ := placed_cons o w rest
    have hw : (w.lead == .symbol s) = false :=
      beq_eq_false_iff_ne.mpr fun heq => hs (congrArg some heq)
    have hat : at? s (placed o (w :: rest)) = .found false (placed o (w :: rest)) := by
      rw [hls]
      exact congrArg (Reading.found · _) hw
    exact bind_found hat

theorem peek_placed (o : Nat) (rest : List Word) :
    peek (placed o rest) = .found (headToken? rest) (placed o rest) := by
  cases rest with
  | nil => rfl
  | cons w rest =>
    obtain ⟨span, ls, hls⟩ := placed_cons o w rest
    rw [hls]
    rfl

/-! ## Where phrases end -/

theorem operator?_joins {level : Level} {t : Token} {op : BinaryOp}
    (ht : level.operator? t = some op) : t.joins = some level.height := by
  unfold Level.operator? at ht
  split at ht <;> first | rfl | cases ht

theorem steps_stop (hr : Stops 11 rest) (o : Nat) :
    read eof .steps (placed o rest) = .found [] (placed o rest) := by
  rw [read_eq]
  exact (eat_false (hr.ne rfl (by decide)) _ _ o).trans (eat_false (hr.ne rfl (by decide)) _ _ o)

theorem calls_stop (hr : Stops 12 rest) (o : Nat) :
    read eof .calls (placed o rest) = .found [] (placed o rest) := by
  rw [read_eq]
  exact at_false (hr.ne rfl (by decide)) _ _ o

theorem binaryTail_stop {level : Level} (hr : Stops level.height rest) (left : Node) (o : Nat) :
    read eof (.binaryTail level left) (placed o rest) = .found left (placed o rest) := by
  have hop : (headToken? rest).bind level.operator? = none := by
    cases ht : headToken? rest with
    | none => rfl
    | some t =>
      cases hop : level.operator? t with
      | none => exact hop
      | some op => exact absurd (hr t _ ht (operator?_joins hop)) (Nat.lt_irrefl _)
  rw [read_eq]
  refine (bind_found (peek_placed o rest)).trans ?_
  rw [hop]
  rfl

theorem sequenceTail_stop (hr : Stops 0 rest) (first : Node) (o : Nat) :
    read eof (.sequenceTail first) (placed o rest) = .found first (placed o rest) := by
  rw [read_eq]
  exact eat_false (hr.ne rfl (by decide)) _ _ o

/-! ## From each level to the next looser one -/

theorem reads_value (hp : Reads eof .primary 12 ws n) : Reads eof .value 11 ws n := by
  intro o rest hr
  rw [read_eq]
  refine (bind_found (hp o rest (hr.mono (by decide)))).trans ?_
  exact bind_found (steps_stop hr _)

theorem reads_unary (hv : Reads eof .value 11 ws n) (hl : Node.Leads 11 ws) :
    Reads eof .unary 10 ws n := by
  intro o rest hr
  obtain ⟨w, more, rfl, -, hu⟩ := hl
  rw [read_eq]
  refine (bind_found (peek_placed o _)).trans ?_
  have hop : (headToken? (w :: more ++ rest)).bind unaryOperator? = none := hu (Nat.le_refl 11)
  rw [hop]
  exact hv o rest (hr.mono (by decide))

/-- The words are read as the first operand of a level, and the operators after them follow. -/
def Tail (eof : Span) (level : Level) (ws : List Word) (n : Node) : Prop :=
  ∀ o rest, Stops (level.height + 1) rest →
    read eof (.binary level) (placed o (ws ++ rest)) =
      read eof (.binaryTail level n) (placed (after o ws) rest)

theorem tail_of_operand {level : Level} (hp : Reads eof level.operand (level.height + 1) ws n) :
    Tail eof level ws n := by
  intro o rest hr
  rw [read_eq]
  exact bind_found (hp o rest hr)

theorem reads_of_tail {level : Level} (ht : Tail eof level ws n) :
    Reads eof (.binary level) level.height ws n := by
  intro o rest hr
  rw [ht o rest (hr.mono (Nat.le_succ _)), binaryTail_stop hr]

theorem reads_choice (hb : Reads eof (.binary .or) 3 ws n) : Reads eof .choice 2 ws n := by
  intro o rest hr
  rw [read_eq]
  refine (bind_found (hb o rest (hr.mono (by decide)))).trans ?_
  exact (eat_false (hr.ne rfl (by decide)) _ _ _).trans
    ((eat_false (hr.ne rfl (by decide)) _ _ _).trans (eat_false (hr.ne rfl (by decide)) _ _ _))

theorem reads_assignment (hc : Reads eof .choice 2 ws n) (hcalm : Calm ws) :
    Reads eof .assignment 1 ws n := by
  intro o rest hr
  have hahead := hcalm o rest (hr.ne rfl (by decide))
  rw [read_eq]
  show assignment (read eof) (placed o (ws ++ rest)) = _
  rw [assignment, if_neg (Bool.eq_false_iff.mp hahead)]
  refine (bind_found (hc o rest (hr.mono (by decide)))).trans ?_
  exact eat_false (hr.ne rfl (by decide)) _ _ _

/-- The words are read as the first part of a sequence, and the parts after them follow. -/
def SequenceTail (eof : Span) (ws : List Word) (n : Node) : Prop :=
  ∀ o rest, Stops 1 rest →
    read eof .sequence (placed o (ws ++ rest)) =
      read eof (.sequenceTail n) (placed (after o ws) rest)

theorem sequenceTail_of_assignment (ha : Reads eof .assignment 1 ws n) :
    SequenceTail eof ws n := by
  intro o rest hr
  rw [read_eq]
  exact bind_found (ha o rest hr)

theorem reads_of_sequenceTail (hs : SequenceTail eof ws n) : Reads eof .sequence 0 ws n := by
  intro o rest hr
  rw [hs o rest (hr.mono (by decide)), sequenceTail_stop hr]

end Parser

/-! ## Places -/

namespace Rung

open ExprLang.Parser (Phrase)

def phrase : Rung → Phrase Node
  | sequence => .sequence
  | assignment => .assignment
  | choice => .choice
  | binary level => .binary level
  | unary => .unary
  | value => .value
  | primary => .primary

/-- The next looser level. -/
def looser : Rung → Rung
  | sequence => sequence
  | assignment => sequence
  | choice => assignment
  | binary .or => choice
  | binary .and => binary .or
  | binary .equality => binary .and
  | binary .relational => binary .equality
  | binary .concat => binary .relational
  | binary .additive => binary .concat
  | binary .multiplicative => binary .additive
  | unary => binary .multiplicative
  | value => unary
  | primary => value

theorem height_looser {r : Rung} (h : 0 < r.height) : r.looser.height + 1 = r.height := by
  cases r with
  | sequence => exact absurd h (Nat.lt_irrefl 0)
  | binary level => cases level <;> rfl
  | _ => rfl

theorem height_injective {r r' : Rung} (h : r.height = r'.height) : r = r' := by
  cases r <;> cases r' <;> first
    | rfl
    | (rename_i l l'; cases l <;> cases l' <;> first | rfl | cases h)
    | (rename_i l; cases l <;> cases h)
    | cases h

theorem height_tighter (level : Parser.Level) : level.tighter.height = level.height + 1 := by
  cases level <;> rfl

theorem phrase_tighter (level : Parser.Level) : level.tighter.phrase = level.operand := by
  cases level <;> rfl

end Rung

namespace Parser

open Word

variable {eof : Span} {n : Node} {ws : List Word} {r r' : Rung} {level : Level}

/-- The words are read as a phrase of the level. -/
def Fits (eof : Span) (r : Rung) (ws : List Word) (n : Node) : Prop :=
  Reads eof r.phrase r.height ws n

/-- The words begin like a phrase of the level. -/
structure Begins (r : Rung) (ws : List Word) : Prop where
  lead : 11 ≤ r.height → Node.Leads 11 ws
  calm : 2 ≤ r.height → Calm ws

theorem Fits.looser (hf : Fits eof r ws n) (hb : Begins r ws) : Fits eof r.looser ws n := by
  cases r with
  | sequence => exact hf
  | assignment => exact reads_of_sequenceTail (sequenceTail_of_assignment hf)
  | choice => exact reads_assignment hf (hb.calm (Nat.le_refl 2))
  | binary level =>
    cases level with
    | or => exact reads_choice hf
    | _ => exact reads_of_tail (tail_of_operand hf)
  | unary => exact reads_of_tail (tail_of_operand hf)
  | value => exact reads_unary hf (hb.lead (Nat.le_refl 11))
  | primary => exact reads_value hf

/-- A phrase is a phrase of every looser level. -/
theorem Fits.mono (hf : Fits eof r ws n) (hb : Begins r ws) (hr : r'.height ≤ r.height) :
    Fits eof r' ws n := by
  obtain ⟨d, hd⟩ := Nat.exists_eq_add_of_le hr
  -- By induction on the number of levels between the two.
  induction d generalizing r with
  | zero => exact Rung.height_injective hd ▸ hf
  | succ d ih =>
    have hl : r.looser.height + 1 = r.height := Rung.height_looser (by omega)
    have hb' : Begins r.looser ws := ⟨fun h => hb.lead (by omega), fun h => hb.calm (by omega)⟩
    exact ih (hf.looser hb) hb' (by omega) (by omega)

/-- The words are read as a phrase of the level, on which operators that group to the left may
go on. -/
def Grows (eof : Span) : Rung → List Word → Node → Prop
  | .sequence, ws, n => SequenceTail eof ws n
  | .binary level, ws, n => Tail eof level ws n
  | r, ws, n => Fits eof r ws n

theorem Grows.fits (hg : Grows eof r ws n) : Fits eof r ws n := by
  cases r with
  | sequence => exact reads_of_sequenceTail hg
  | binary level => exact reads_of_tail hg
  | _ => exact hg

theorem Fits.tail (hf : Fits eof r ws n) (hb : Begins r ws) (hr : level.height < r.height) :
    Tail eof level ws n := by
  have hop : Fits eof level.tighter ws n := hf.mono hb (by rw [Rung.height_tighter]; exact hr)
  rw [Fits, Rung.height_tighter, Rung.phrase_tighter] at hop
  exact tail_of_operand hop

/-! ## Trees that are read back -/

/-- What is read from the words of a tree is the tree. -/
structure RoundTrips (eof : Span) (n : Node) : Prop where
  wellFormed : n.WellFormed
  grows : Grows eof n.rung n.words n
  /-- The words of a lambda are read as one after a look ahead, too. -/
  arrow : n.isArrow = true → Reads eof .lambda 2 n.words n

theorem primary_lParen (o : Nat) (rest : List Word) :
    read eof .primary (placed o (symbol .lParen :: rest)) =
      if lambdaAhead (placed (after o [symbol .lParen]) rest) then
        enclosedLambda eof (read eof) (placed o (symbol .lParen :: rest))
      else
        (do
          let inner ← read eof .sequence
          expect eof .rParen
          pure inner : Reader Node) (placed (after o [symbol .lParen]) rest) :=
  read_eq .primary _

theorem enclose_append (ws rest : List Word) :
    enclose ws ++ rest = symbol .lParen :: (ws ++ symbol .rParen :: rest) := by
  simp [enclose]

theorem after_enclose (o : Nat) (ws : List Word) :
    after o (enclose ws) =
      after (after (after o [symbol .lParen]) ws) [symbol .rParen] := by
  rw [← after_append, ← after_append]
  rfl

theorem lambdaAhead_words (h : n.isArrow = true) (o : Nat) (rest : List Word) :
    lambdaAhead (placed o (n.words ++ rest)) = true := by
  unfold Node.isArrow at h
  split at h
  · rw [Node.words, List.append_assoc]
    exact lambdaAhead_header _ o _
  · cases h

/-- A lambda in parentheses, and the argument lists after it. -/
theorem enclosedLambda_read {params : List String} {body : Node} {calls : List (List Node)}
    {o o' : Nat} {rest rest' : List Word}
    (hl : Reads eof .lambda 2 ws (.lambda params body []))
    (hc : read eof .calls (placed (after o (enclose ws)) rest) = .found calls (placed o' rest')) :
    enclosedLambda eof (read eof) (placed o (enclose ws ++ rest)) =
      .found (.lambda params body calls) (placed o' rest') := by
  rw [after_enclose] at hc
  rw [enclose_append]
  refine (expect_symbol .lParen _ o _).trans ?_
  refine (bind_found (hl _ _ (stops_symbol rfl rest))).trans ?_
  refine (expect_symbol .rParen _ _ rest).trans ?_
  exact bind_found hc

namespace RoundTrips

theorem begins (h : RoundTrips eof n) : Begins n.rung n.words := by
  refine ⟨fun hr => ?_, fun hr => ?_⟩
  · obtain ⟨w, more, hw, hc, hu⟩ := n.words_lead h.wellFormed
    exact ⟨w, more, hw, hc, fun _ => hu hr⟩
  · exact (n.words_quiet h.wellFormed).calm (Node.isArrow_of_height_ge hr)

theorem fits (h : RoundTrips eof n) (hr : r.height ≤ n.rung.height) : Fits eof r n.words n :=
  h.grows.fits.mono h.begins hr

theorem enclosed (h : RoundTrips eof n) : Fits eof .primary (enclose n.words) n := by
  intro o rest hr
  cases harrow : n.isArrow with
  | true =>
    unfold Node.isArrow at harrow
    split at harrow
    · rename_i params body
      have hread := enclosedLambda_read (o := o) (h.arrow rfl) (calls_stop hr _)
      rw [enclose_append] at hread ⊢
      refine (primary_lParen o _).trans ?_
      rw [if_pos (lambdaAhead_words rfl _ _)]
      exact hread
    · cases harrow
  | false =>
    have hahead := (n.words_quiet h.wellFormed).calm harrow (after o [symbol .lParen])
      (symbol .rParen :: rest) nofun
    have hs : Fits eof .sequence n.words n := h.fits (Nat.zero_le _)
    rw [enclose_append, after_enclose]
    refine (primary_lParen o _).trans ?_
    rw [if_neg (Bool.eq_false_iff.mp hahead)]
    refine (bind_found (hs _ _ (stops_symbol rfl rest))).trans ?_
    exact expect_symbol .rParen _ _ rest

theorem begins_enclose (h : RoundTrips eof n) (hr : n.rung.height < r.height) :
    Begins .primary (enclose n.words) := by
  have hinside := (n.words_quiet h.wellFormed).inside (Node.ne_name_of_height_lt hr)
  refine ⟨fun _ => ?_, fun _ => ?_⟩
  · exact List.append_nil (enclose n.words) ▸ Node.leads_enclose 11 n.words []
  · exact List.append_nil (enclose n.words) ▸ hinside.enclose []

/-- The words of a tree at a place are read back there. -/
theorem fit (h : RoundTrips eof n) (r : Rung) : Fits eof r (fit r n n.words) n := by
  unfold Word.fit
  split
  · rename_i hr
    exact h.enclosed.mono (h.begins_enclose hr) r.height_le
  · exact h.fits (by omega)

theorem tail (h : RoundTrips eof n) (level : Level) :
    Tail eof level (Word.fit (.binary level) n n.words) n := by
  unfold Word.fit
  split
  · rename_i hr
    exact h.enclosed.tail (h.begins_enclose hr) (by cases level <;> decide)
  · rename_i hr
    -- Only a tree of this very level may go on with an operator of the level.
    by_cases heq : n.rung.height = (Rung.binary level).height
    · have hg := h.grows
      rw [Rung.height_injective heq] at hg
      exact hg
    · have hlt : (Rung.binary level).height < n.rung.height := by omega
      exact h.grows.fits.tail h.begins hlt

end RoundTrips

end Parser

end ExprLang
