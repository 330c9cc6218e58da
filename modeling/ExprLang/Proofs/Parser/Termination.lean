import ExprLang.Proofs.Parser.Inside

/-! Reading comes to an end. The scan of a text with segments goes round by round; every round
starts where the last one stopped and takes at least one character. In the grammar a phrase reads
others only where fewer tokens are left, or as many and the level is lower; it never gives tokens
back, and takes some unless it is a loop without further rounds. -/

namespace ExprLang.Template

open ExprLang.Lexer (byteLength byteLength_append)

/-! ## The scan -/

/-- A place that the scan has come to: its offset, the characters since the last segment, in
reverse, and the text that is left. -/
structure Scan where
  offset : Nat
  literal : List Char
  text : List Char

/-- How a round ends. -/
inductive Round where
  | finished (parts : List Node)
  | refused (e : SyntaxError)
  /-- The scan goes on elsewhere, and what it yields there becomes the parts of the whole. -/
  | passed (next : Scan) (put : List Node → List Node)

namespace Scan

/-- The start of a text. -/
def start (text : String) : Scan := ⟨0, [], text.toList⟩

/-- One round: a marker after a backslash, a segment, or else one character. -/
def round (s : Scan) : Round :=
  match s.text with
  | [] => .finished (flush s.literal [])
  | c :: rest =>
    match head c rest with
    | .escaped m rest' => .passed ⟨s.offset + 3, m.spelling.reverse ++ s.literal, rest'⟩ id
    | .letter d rest' => .passed ⟨s.offset + d.utf8Size, d :: s.literal, rest'⟩ id
    | .opening m rest' =>
      match Lexer.segmentFrom (s.offset + 2) 0 rest' with
      | .error e => .refused e
      | .ok segment =>
        match parseTokens segment.lexemes ⟨segment.stop, segment.stop + 1⟩ with
        | .error e => .refused e
        | .ok node =>
          .passed ⟨segment.stop + 1, [], segment.rest⟩ fun parts =>
            flush s.literal (m.wrap node :: parts)

/-- The parts of the text that is left. -/
def parts (s : Scan) : Except SyntaxError (List Node) := partsFrom s.offset s.literal s.text

/-- The scan is made of its rounds. -/
theorem parts_eq (s : Scan) :
    s.parts =
      match s.round with
      | .finished parts => .ok parts
      | .refused e => .error e
      | .passed next put => next.parts.map put := by
  obtain ⟨offset, literal, text⟩ := s
  unfold parts round
  rcases text with _ | ⟨c, rest⟩
  · rw [partsFrom]
  rw [partsFrom]
  dsimp only
  split
  · next hc =>
    simp only [hc]
    cases partsFrom _ _ _ <;> rfl
  · next hc =>
    simp only [hc]
    cases partsFrom _ _ _ <;> rfl
  · next hc =>
    simp only [hc]
    split
    · next hs => simp only [hs]
    · next hs =>
      simp only [hs]
      split
      · next hn => simp only [hn]
      · next hn =>
        simp only [hn]
        cases partsFrom _ _ _ <;> rfl

variable {s next : Scan} {put : List Node → List Node} {e : SyntaxError}

/-- A round takes characters, and the scan goes on right behind them. -/
theorem passed_takes (h : s.round = .passed next put) :
    ∃ taken, taken ≠ [] ∧ s.text = taken ++ next.text ∧
      next.offset = s.offset + byteLength taken := by
  obtain ⟨offset, literal, text⟩ := s
  unfold round at h
  rcases text with _ | ⟨c, rest⟩
  · cases h
  have hspelling := @head_spelling c rest
  dsimp only at h
  split at h
  · next m rest' hc =>
    rw [hc] at hspelling
    cases h
    have hlength : byteLength ('\\' :: m.spelling) = 3 := by
      rw [byteLength, byteLength_spelling]
      rfl
    exact ⟨'\\' :: m.spelling, List.cons_ne_nil _ _, hspelling, by rw [hlength]⟩
  · next d rest' hc =>
    rw [hc] at hspelling
    obtain ⟨rfl, rfl⟩ := hspelling
    cases h
    exact ⟨[c], List.cons_ne_nil _ _, rfl, rfl⟩
  · next m rest' hc =>
    rw [hc] at hspelling
    split at h
    · cases h
    · next segment hs =>
      split at h
      · cases h
      · cases h
        obtain ⟨front, rfl, -, -, hstop⟩ := Lexer.segmentFrom_eq_ok_iff.mp hs
        refine ⟨m.spelling ++ front ++ ['\x7d'], by simp, ?_, ?_⟩
        · exact hspelling.trans (by simp)
        · have hbrace : byteLength ['\x7d'] = 1 := rfl
          simp only [byteLength_append, byteLength_spelling, hbrace]
          omega

theorem passed_shorter (h : s.round = .passed next put) : next.text.length < s.text.length := by
  obtain ⟨taken, hne, htext, -⟩ := passed_takes h
  have hpos := List.length_pos_iff.mpr hne
  rw [htext, List.length_append]
  omega

theorem byteLength_pos {cs : List Char} (h : cs ≠ []) : 0 < byteLength cs := by
  obtain ⟨c, cs, rfl⟩ := List.exists_cons_of_ne_nil h
  have hc := c.utf8Size_pos
  rw [byteLength]
  omega

theorem finished_nil {parts : List Node} (h : s.round = .finished parts) : s.text = [] := by
  unfold round at h
  split at h
  · assumption
  · repeat' split at h
    all_goals cases h

theorem refused_nonempty (h : s.round = .refused e) : s.text ≠ [] := by
  intro htext
  unfold round at h
  rw [htext] at h
  cases h

/-! ## Bytes -/

/-- The bytes that the rounds from here on take, one range for each round. A round that is refused
is counted as if it took all that is left. -/
def visits (s : Scan) : List Span :=
  match _h : s.round with
  | .finished _ => []
  | .refused _ => [⟨s.offset, s.offset + byteLength s.text⟩]
  | .passed next _ => ⟨s.offset, next.offset⟩ :: next.visits
termination_by s.text.length
decreasing_by exact passed_shorter _h

/-- The ranges are not empty and lie side by side, from the first of these bytes to the second. -/
def Tiles : Nat → List Span → Nat → Prop
  | lo, [], hi => lo = hi
  | lo, v :: vs, hi => v.start = lo ∧ lo < v.stop ∧ Tiles v.stop vs hi

variable {lo hi : Nat} {vs : List Span}

theorem Tiles.le (h : Tiles lo vs hi) : lo + vs.length ≤ hi := by
  induction vs generalizing lo with
  | nil => exact Nat.le_of_eq h
  | cons v vs ih =>
    obtain ⟨-, hlt, hvs⟩ := h
    have hle := ih hvs
    rw [List.length_cons]
    omega

/-- Whether the byte is in the range. -/
def covers (byte : Nat) (v : Span) : Bool := v.start ≤ byte && byte < v.stop

theorem Tiles.count_before (h : Tiles lo vs hi) {byte : Nat} (hb : byte < lo) :
    vs.countP (covers byte) = 0 := by
  induction vs generalizing lo with
  | nil => rfl
  | cons v vs ih =>
    obtain ⟨rfl, hlt, hvs⟩ := h
    have hv : ¬ covers byte v := by simp [covers, hb]
    rw [List.countP_cons_of_neg hv]
    exact ih hvs (by omega)

/-- Ranges side by side have no byte in common. -/
theorem Tiles.count_le (h : Tiles lo vs hi) (byte : Nat) : vs.countP (covers byte) ≤ 1 := by
  induction vs generalizing lo with
  | nil => exact Nat.zero_le 1
  | cons v vs ih =>
    obtain ⟨rfl, hlt, hvs⟩ := h
    by_cases hv : covers byte v
    · have hstop : byte < v.stop := by
        simp only [covers, Bool.and_eq_true, decide_eq_true_eq] at hv
        exact hv.2
      rw [List.countP_cons_of_pos hv, hvs.count_before hstop]
    · rw [List.countP_cons_of_neg hv]
      exact ih hvs

/-- The rounds take the text that is left from its start to its end. -/
theorem visits_tile (s : Scan) : Tiles s.offset s.visits (s.offset + byteLength s.text) := by
  fun_induction visits s with
  | case1 s parts h =>
    rw [finished_nil h]
    exact rfl
  | case2 s e h =>
    have hpos := byteLength_pos (refused_nonempty h)
    exact ⟨rfl, Nat.lt_add_of_pos_right hpos, rfl⟩
  | case3 s next put h ih =>
    obtain ⟨taken, hne, htext, hoffset⟩ := passed_takes h
    have hpos := byteLength_pos hne
    rw [htext, byteLength_append, ← Nat.add_assoc, ← hoffset]
    exact ⟨rfl, (by omega : s.offset < next.offset), ih⟩

theorem start_tiles (text : String) : Tiles 0 (start text).visits text.utf8ByteSize := by
  have htiles := visits_tile (start text)
  rwa [start, Lexer.byteLength_toList, Nat.zero_add] at htiles

end Scan

end ExprLang.Template

namespace ExprLang.Parser

open ExprLang.Parser.Reading (Ends Same)

variable {α β : Type} {eof : Span} {ts us rest : List Lexeme}

/-! ## The grammar -/

/-- The phrases that stand for a loop, read from the start of one of its rounds: the parts after
the first one of a sequence, of operands, steps and argument lists, and of items. -/
def Phrase.isLoop : {α : Type} → Phrase α → Bool
  | _, .sequenceTail _ => true | _, .binaryTail _ _ => true | _, .steps => true
  | _, .calls => true | _, .moreItems => true | _, .moreMembers _ => true
  | _, .moreEntries _ => true
  | _, _ => false

/-- Both phrases are rounds of one loop. -/
inductive SameLoop : {α : Type} → Phrase α → Phrase α → Prop
  | sequence (first second : Node) : SameLoop (.sequenceTail first) (.sequenceTail second)
  | operands (level : Level) (left right : Node) :
      SameLoop (.binaryTail level left) (.binaryTail level right)
  | steps : SameLoop .steps .steps
  | calls : SameLoop .calls .calls
  | items : SameLoop .moreItems .moreItems
  | members (opening : Span) : SameLoop (.moreMembers opening) (.moreMembers opening)
  | entries (opening : Span) : SameLoop (.moreEntries opening) (.moreEntries opening)

/-- A phrase in front of the last ones of these tokens, where fewer tokens are left than in front of
the other one, or as many and its level is lower. -/
structure Within (p : Phrase α) (ts : List Lexeme) (q : Phrase β) (us : List Lexeme) : Prop where
  suffix : us <:+ ts
  smaller : Prod.Lex (· < ·) (· < ·) (us.length, q.rank) (ts.length, p.rank)

theorem within_iff {p : Phrase α} {q : Phrase β} :
    Within p ts q us ↔
      us <:+ ts ∧ (us.length < ts.length ∨ us.length = ts.length ∧ q.rank < p.rank) :=
  ⟨fun h => ⟨h.suffix, Prod.lex_def.mp h.smaller⟩, fun h => ⟨h.1, Prod.lex_def.mpr h.2⟩⟩

instance (p : Phrase α) (ts : List Lexeme) (q : Phrase β) (us : List Lexeme) :
    Decidable (Within p ts q us) :=
  decidable_of_iff _ within_iff.symm

/-- Reads what may be read inside of a phrase in front of these tokens, and gives up elsewhere. -/
def inside (eof : Span) (p : Phrase α) (ts : List Lexeme) {β : Type} (q : Phrase β) : Reader β :=
  fun us => if Within p ts q us then read eof q us else .exhausted

/-- The reading is refused, or it comes to a later place, which is not behind the end. -/
def Advances (ts : List Lexeme) (r : Reading α) : Prop :=
  r.Ends fun _ rest => rest <:+ ts ∧ rest.length < ts.length

/-- How a phrase is read in front of these tokens. -/
structure Descends (eof : Span) (p : Phrase α) (ts : List Lexeme) : Prop where
  /-- It is refused or found. The tokens after it are the last ones, and fewer but for loops. -/
  ends : (read eof p ts).Ends fun _ rest =>
    rest <:+ ts ∧ (p.isLoop = false → rest.length < ts.length)
  /-- It is made of phrases that come with fewer tokens left, or as many and on a lower level. -/
  inner : step eof (inside eof p ts) p ts = read eof p ts
  /-- Between two rounds of a loop tokens are taken. -/
  rounds : ∀ (q : Phrase α) (us : List Lexeme), Within p ts q us → SameLoop p q →
    us.length < ts.length

/-! ## Single phrases -/

theorem SameLoop.rank_eq {p q : Phrase α} (h : SameLoop p q) : q.rank = p.rank := by
  cases h <;> rfl

theorem Phrase.least_of_not_loop (p : Phrase α) (h : p.isLoop = false) : p.least = 1 := by
  cases p <;> first | rfl | cases h

theorem within_of_weight {p : Phrase α} {q : Phrase β} (hs : us <:+ ts)
    (hw : q.weight us < p.weight ts) : Within p ts q us := by
  have hle := hs.length_le
  simp only [Phrase.weight] at hw
  exact within_iff.mpr ⟨hs, by omega⟩

theorem inside_agrees (p : Phrase α) (ts : List Lexeme) :
    AgreeBelow ts p.rank (inside eof p ts) (read eof) := by
  intro β q us hs hw
  have hwithin : Within p ts q us := within_of_weight hs hw
  have heq : inside eof p ts q us = read eof q us := if_pos hwithin
  show Same _ (inside eof p ts q us) (read eof q us)
  rw [heq]
  exact .refl (read_sound q us)

theorem step_inside (p : Phrase α) (ts : List Lexeme) :
    step eof (inside eof p ts) p ts = read eof p ts := by
  rw [read_eq]
  exact (step_same p (inside_agrees p ts)).eq

theorem Reading.Ends.imp {q q' : α → List Lexeme → Prop} {r : Reading α} (h : r.Ends q)
    (hq : ∀ a rest, q a rest → q' a rest) : r.Ends q' :=
  ((Same.refl h).mono hq).ends

theorem descends (eof : Span) (p : Phrase α) (ts : List Lexeme) : Descends eof p ts where
  ends := by
    refine (read_sound p ts).imp fun a rest h => ⟨h.takes.suffix, fun hloop => ?_⟩
    have hshorter := h.takes.shorter
    rw [p.least_of_not_loop hloop] at hshorter
    exact hshorter
  inner := step_inside p ts
  rounds := by
    intro q us hwithin hloop
    rcases (within_iff.mp hwithin).2 with hlt | ⟨-, hrank⟩
    · exact hlt
    · rw [hloop.rank_eq] at hrank
      exact absurd hrank (Nat.lt_irrefl _)

/-! ## Parts of phrases -/

theorem advances_of_same {s : α → Prop} {r r' : Reading α} (h : Same (Sound ts 1 s) r r') :
    Advances ts r :=
  h.ends.imp fun _ _ h => ⟨h.takes.suffix, h.takes.shorter⟩

theorem read_agrees (ts : List Lexeme) : AgreeBelow ts 0 (read eof) (read eof) :=
  fun q us _ _ => .refl (read_sound q us)

/-- Every further parameter takes its comma with it. -/
theorem moreParams_takes {ns : List String} (h : moreParams eof ts = .found ns rest) :
    rest <:+ ts ∧ rest.length + 2 * ns.length = ts.length := by
  fun_induction moreParams eof ts generalizing ns with
  | case1 _ name _ us ns' us' hr ih =>
    cases h
    obtain ⟨hs, hlength⟩ := ih hr
    refine ⟨hs.trans ((List.suffix_cons _ _).trans (List.suffix_cons _ _)), ?_⟩
    simp only [List.length_cons]
    omega
  | case2 => cases h
  | case3 => cases h
  | case4 _ us _ => cases us <;> cases h
  | case5 =>
    cases h
    exact ⟨List.suffix_refl _, rfl⟩

end ExprLang.Parser

namespace ExprLang

open ExprLang.Parser (Advances AgreeBelow Descends Phrase enclosed enclosedLambda lambdaHeader
  moreParams nameOrCall read setOrMap)
open ExprLang.Template (Scan)

variable {eof : Span} {ts : List Lexeme}

/-- Tokens are parsed, or more of them follow than can be parsed, or they are refused. -/
theorem parseTokens_cases (ts : List Lexeme) (eof : Span) :
    (∃ n, read eof .sequence ts = .found n [] ∧ parseTokens ts eof = .ok n) ∨
    (∃ n t rest, read eof .sequence ts = .found n (t :: rest) ∧
      parseTokens ts eof = .error ⟨.trailing t.token.spelling, t.span⟩) ∨
    ∃ e, read eof .sequence ts = .refused e ∧ parseTokens ts eof = .error e := by
  have hends := (Parser.descends eof .sequence ts).ends
  rw [parseTokens, Parser.run_depthFor]
  cases hr : read eof .sequence ts with
  | found n rest =>
    cases rest with
    | nil => exact .inl ⟨n, rfl, rfl⟩
    | cons t rest => exact .inr (.inl ⟨n, t, rest, rfl, rfl⟩)
  | refused e => exact .inr (.inr ⟨e, rfl, rfl⟩)
  | exhausted =>
    rw [hr] at hends
    exact hends.elim

/-- The phrases that have no level of their own. -/
theorem parts_advance (eof : Span) (ts : List Lexeme) :
    Advances ts (lambdaHeader eof ts) ∧ Advances ts (enclosedLambda eof (read eof) ts) ∧
    Advances ts (nameOrCall eof (read eof) ts) ∧ Advances ts (setOrMap eof (read eof) ts) ∧
    ∀ opening closing, Advances ts (enclosed eof (read eof) opening closing ts) := by
  have hagree : AgreeBelow ts 0 (read eof) (read eof) := Parser.read_agrees ts
  refine ⟨Parser.advances_of_same (Parser.lambdaHeader_same ts),
    Parser.advances_of_same (Parser.enclosedLambda_same hagree),
    Parser.advances_of_same (Parser.nameOrCall_same hagree),
    Parser.advances_of_same (Parser.setOrMap_same hagree), fun opening closing => ?_⟩
  exact Parser.advances_of_same (Parser.enclosed_same hagree opening closing)

/-- Reading comes to an end. Every phrase of the grammar is refused or comes to a later place, and
no place is behind the last token; only loops may take no token, if they go on no further. Every
round of a loop takes tokens, and a phrase is read inside another one only with fewer tokens left,
or with as many on a lower level. So tokens always have a tree or are refused, and the rounds of the
scan of a text with segments take no byte twice. -/
theorem reading_ends :
    (∀ (eof : Span) {α : Type} (p : Phrase α) (ts : List Lexeme), Descends eof p ts) ∧
    (∀ (eof : Span) (ts : List Lexeme),
      Advances ts (lambdaHeader eof ts) ∧ Advances ts (enclosedLambda eof (read eof) ts) ∧
      Advances ts (nameOrCall eof (read eof) ts) ∧ Advances ts (setOrMap eof (read eof) ts) ∧
      (∀ opening closing, Advances ts (enclosed eof (read eof) opening closing ts)) ∧
      ∀ ns rest, moreParams eof ts = .found ns rest →
        rest <:+ ts ∧ rest.length + 2 * ns.length = ts.length) ∧
    (∀ (ts : List Lexeme) (eof : Span),
      (∃ n, read eof .sequence ts = .found n [] ∧ parseTokens ts eof = .ok n) ∨
      (∃ n t rest, read eof .sequence ts = .found n (t :: rest) ∧
        parseTokens ts eof = .error ⟨.trailing t.token.spelling, t.span⟩) ∨
      ∃ e, read eof .sequence ts = .refused e ∧ parseTokens ts eof = .error e) ∧
    (∀ s : Scan, s.parts =
      match s.round with
      | .finished parts => .ok parts
      | .refused e => .error e
      | .passed next put => next.parts.map put) ∧
    ∀ text : String,
      (parseTemplate text =
        match (Scan.start text).parts with
        | .ok parts => Template.assemble text.utf8ByteSize parts
        | .error e => .error e) ∧
      (Scan.start text).visits.length ≤ text.utf8ByteSize ∧
      ∀ byte, (Scan.start text).visits.countP (Scan.covers byte) ≤ 1 := by
  refine ⟨fun eof _ p ts => Parser.descends eof p ts, fun eof ts => ?_, parseTokens_cases,
    Scan.parts_eq, fun text => ⟨rfl, ?_, (Scan.start_tiles text).count_le⟩⟩
  · obtain ⟨hheader, hlambda, hname, hset, henclosed⟩ := parts_advance eof ts
    exact ⟨hheader, hlambda, hname, hset, henclosed, fun _ _ => Parser.moreParams_takes⟩
  · have hle := (Scan.start_tiles text).le
    omega

end ExprLang
