import ExprLang.Proofs.Parser.Spacing

/-! A segment is a text of its own whose braces balance, and a closing brace after it. No text has
more than one such beginning. The text is an expression if its tokens make up a tree. -/

namespace ExprLang

namespace Lexer

/-- The number of tokens that are this sign. -/
def signCount (s : Symbol) (ls : List Lexeme) : Nat := ls.countP (·.token = .symbol s)

/-- No brace is closed that is not open, and none is left open. -/
structure Balanced (ls : List Lexeme) : Prop where
  opened : ∀ p, p <+: ls → signCount .rBrace p ≤ signCount .lBrace p
  closed : signCount .lBrace ls = signCount .rBrace ls

/-- The text before a closing brace is a text with these tokens, and their braces balance. -/
structure SegmentBody (text body : String) (ls : List Lexeme) : Prop where
  brace : ∃ after : String, text = body ++ "\x7d" ++ after
  tokens : tokenize body = .ok ls
  balanced : Balanced ls

variable {o d k n : Nat} {c : Char} {cs front rest tail : List Char} {l : Lexeme} {ls : List Lexeme}
  {s : Segment}

/-! ## Tokens of a text that is cut off behind them -/

/-- A token that ends within the first part of a text is the token of that part. -/
theorem tokenAt_cut {t : Token} {n : Nat} (h : tokenAt c (cs ++ tail) = (some t, n))
    (ht : Parted tail) (hn : n ≤ cs.length) : tokenAt c cs = (some t, n) := by
  have hfound : ∃ t', (tokenAt c cs).1 = some t' := by
    rcases tokenAt_cases h with hnum | ⟨hnum, ⟨hq, hquoted⟩ | ⟨hq, hw | ⟨hw, s, hs⟩⟩⟩
    all_goals rw [startsNumber_append ht] at hnum
    · exact ⟨_, congrArg Prod.fst (tokenAt_number hnum)⟩
    · have hclosed := quotedRun_cut (ne_backslash_of_quote (by simpa using hq)) hquoted hn
      exact ⟨_, congrArg Prod.fst (tokenAt_quoted hnum hq hclosed)⟩
    · exact ⟨_, congrArg Prod.fst (tokenAt_word hnum hq hw)⟩
    · rw [symbolAt?_append ht] at hs
      exact ⟨_, congrArg Prod.fst (tokenAt_symbol hnum hq hw hs)⟩
  obtain ⟨t', ht'⟩ := hfound
  have hcs : tokenAt c cs = (some t', (tokenAt c cs).2) := Prod.ext ht' rfl
  have hlonger := tokenAt_append hcs ht
  rw [h] at hlonger
  rw [hcs, ← hlonger]

/-- A token and what comes after it are the end of the text. -/
theorem next_suffix (h : next o cs = .found l rest) : ∃ front, cs = front ++ rest := by
  obtain ⟨spaces, c, body, rfl, -⟩ := next_split h
  exact ⟨spaces ++ c :: body, by simp⟩

/-- A token that ends before a closing brace is found too where the text ends at the brace. -/
theorem next_cut (h : next o (cs ++ '\x7d' :: tail) = .found l (rest ++ '\x7d' :: tail)) :
    next o cs = .found l rest := by
  obtain ⟨spaces, c, body, hcs, hspaces, hs, htoken, hspan⟩ := next_split h
  have hcs : cs = spaces ++ c :: (body ++ rest) := by
    rw [← List.append_assoc body, ← List.cons_append, ← List.append_assoc] at hcs
    exact List.append_cancel_right hcs
  rw [← List.append_assoc] at htoken
  rw [hcs, next_spaced o hspaces hs (tokenAt_cut htoken (parted_brace tail) (by simp)), ← hspan]

/-! ## The brace that ends a segment -/

theorem tokenAt_rBrace {n : Nat} (h : tokenAt c cs = (some (.symbol .rBrace), n)) :
    c = '\x7d' ∧ n = 0 := by
  rcases tokenAt_cases h with hnum | ⟨hnum, ⟨hq, hquoted⟩ | ⟨hq, hw | ⟨hw, s, hs⟩⟩⟩
  · rw [tokenAt_number hnum, Prod.mk.injEq] at h
    have h := h.1
    split at h <;> cases h
  · rw [tokenAt_quoted hnum hq hquoted] at h
    cases h
  · rw [tokenAt_word hnum hq hw, Prod.mk.injEq, wordToken] at h
    have h := h.1
    split at h <;> cases h
  · rw [tokenAt_symbol hnum hq hw hs] at h
    cases h
    have hprefix := List.find?_some hs
    exact ⟨(by simpa [Symbol.spelling] using hprefix : '\x7d' = c).symm, rfl⟩

/-- Nothing but spaces stands before a brace that is found next. -/
theorem next_rBrace (h : next o cs = .found l rest) (hl : l.token = .symbol .rBrace) :
    ∃ spaces, cs = spaces ++ '\x7d' :: rest ∧ lexFrom o spaces = .ok [] := by
  obtain ⟨spaces, c, body, rfl, hspaces, -, htoken, -⟩ := next_split h
  rw [hl] at htoken
  obtain ⟨rfl, hbody⟩ := tokenAt_rBrace htoken
  obtain rfl := List.length_eq_zero_iff.mp hbody
  exact ⟨spaces, rfl, lexFrom_finished (next_finished_iff.mpr ⟨hspaces, rfl⟩)⟩

/-- The text of a segment, up to the brace that closes it. -/
theorem segmentFrom_cut (h : segmentFrom o d cs = .ok s) :
    ∃ front, cs = front ++ '\x7d' :: s.rest ∧ lexFrom o front = .ok s.lexemes := by
  fun_induction segmentFrom o d cs generalizing s with
  | case1 => cases h
  | case2 => cases h
  | case3 o d cs l rest hn hbrace =>
    cases h
    exact next_rBrace hn hbrace.1
  | case4 o d cs l rest hn hbrace _ s' hs =>
    rename_i ih
    cases h
    obtain ⟨front, rfl, hfront⟩ := ih hs
    obtain ⟨first, rfl⟩ := next_suffix hn
    refine ⟨first ++ front, (List.append_assoc _ _ _).symm, ?_⟩
    rw [← List.append_assoc] at hn
    rw [lexFrom_found (next_cut hn), hfront]
  | case5 => cases h

theorem lexFrom_unshift (h : lexFrom (o + k) cs = .ok ls) : ∃ ls', lexFrom o cs = .ok ls' := by
  fun_induction lexFrom o cs generalizing ls with
  | case1 => exact ⟨_, rfl⟩
  | case2 o cs e hn =>
    have hnext : next (o + k) cs = .refused ⟨e.issue, e.span.shift k⟩ := by
      rw [next_shift, hn]
      rfl
    rw [lexFrom_refused hnext] at h
    cases h
  | case3 => exact ⟨_, rfl⟩
  | case4 o cs l rest hn e he ih =>
    have hnext : next (o + k) cs = .found (l.shift k) rest := by
      rw [next_shift, hn]
      rfl
    rw [lexFrom_found hnext] at h
    split at h
    · next ls' hls =>
      obtain ⟨_, hok⟩ := ih hls
      rw [he] at hok
      cases hok
    · cases h

/-! ## Counting braces -/

theorem signCount_cons (s : Symbol) (l : Lexeme) (ls : List Lexeme) :
    signCount s (l :: ls) = signCount s ls + if l.token = .symbol s then 1 else 0 := by
  simp [signCount, List.countP_cons]

theorem forall_prefix_cons {bound : List Lexeme → Prop} :
    (∀ p, p <+: l :: ls → bound p) ↔ bound [] ∧ ∀ p, p <+: ls → bound (l :: p) := by
  constructor
  · intro h
    exact ⟨h [] List.nil_prefix, fun p hp => h (l :: p) ((List.prefix_cons_inj l).mpr hp)⟩
  · rintro ⟨hnil, hcons⟩ p hp
    rcases List.prefix_cons_iff.mp hp with rfl | ⟨p', rfl, hp'⟩
    · exact hnil
    · exact hcons p' hp'

/-- A count that starts at one number of open braces never goes below zero, and it ends at
another. -/
theorem depthAfter_eq_some_iff :
    depthAfter d ls = some k ↔
      (∀ p, p <+: ls → signCount .rBrace p ≤ d + signCount .lBrace p) ∧
        d + signCount .lBrace ls = k + signCount .rBrace ls := by
  induction ls generalizing d with
  | nil => simp [depthAfter, signCount]
  | cons l ls ih =>
    have hnil : signCount .rBrace [] ≤ d + signCount .lBrace [] := Nat.zero_le _
    rw [forall_prefix_cons, and_iff_right hnil]
    simp only [signCount_cons, depthAfter]
    by_cases hopen : l.token = .symbol .lBrace
    · have hcount (n m : Nat) : n ≤ d + (m + 1) ↔ n ≤ d + 1 + m := by omega
      simp only [hopen, if_true, ih, reduceCtorEq, Token.symbol.injEq, if_false, Nat.add_zero,
        hcount]
      exact and_congr_right fun _ => by omega
    · by_cases hclose : l.token = .symbol .rBrace
      · cases d with
        | zero =>
          -- The prefix of this brace alone closes more than is open.
          simp only [hclose, Token.symbol.injEq, reduceCtorEq, if_false, if_true, false_iff]
          rintro ⟨h, -⟩
          have hone := h [] List.nil_prefix
          simp [signCount] at hone
        | succ d =>
          have hcount (n m : Nat) : n + 1 ≤ d + 1 + m ↔ n ≤ d + m := by omega
          simp only [hclose, Token.symbol.injEq, reduceCtorEq, if_false, if_true, ih, Nat.add_zero,
            hcount]
          exact and_congr_right fun _ => by omega
      · simp only [hopen, hclose, if_false, ih, Nat.add_zero]

theorem balanced_iff : Balanced ls ↔ depthAfter 0 ls = some 0 := by
  rw [depthAfter_eq_some_iff]
  simp only [Nat.zero_add]
  exact ⟨fun h => ⟨h.opened, h.closed⟩, fun h => ⟨h.1, h.2⟩⟩

/-! ## What a segment is -/

/-- The tokens of a segment close the braces that were open before it and those that they open. -/
theorem segmentFrom_depth (h : segmentFrom o d cs = .ok s) : depthAfter d s.lexemes = some 0 := by
  fun_induction segmentFrom o d cs generalizing s with
  | case1 => cases h
  | case2 => cases h
  | case3 o d cs l rest hn hbrace =>
    cases h
    exact congrArg some hbrace.2
  | case4 o d cs l rest hn hbrace _ s' hs =>
    rename_i deeper ih
    cases h
    have htail := ih hs
    simp only [depthAfter]
    by_cases hopen : l.token = .symbol .lBrace
    · rwa [if_pos hopen, ← show deeper = d + 1 from if_pos hopen]
    · by_cases hclose : l.token = .symbol .rBrace
      · have hdeeper : deeper = d - 1 := (dif_neg hopen).trans (dif_pos hclose)
        rw [if_neg hopen, if_pos hclose]
        cases d with
        | zero => exact absurd ⟨hclose, rfl⟩ hbrace
        | succ d => rwa [hdeeper] at htail
      · rwa [if_neg hopen, if_neg hclose,
          ← show deeper = d from (dif_neg hopen).trans (dif_neg hclose)]
  | case5 => cases h

/-- A segment is found exactly where a text whose braces balance ends at a closing brace. -/
theorem segmentFrom_eq_ok_iff :
    segmentFrom o d cs = .ok s ↔
      ∃ front, cs = front ++ '\x7d' :: s.rest ∧ lexFrom o front = .ok s.lexemes ∧
        depthAfter d s.lexemes = some 0 ∧ s.stop = o + byteLength front := by
  constructor
  · intro h
    obtain ⟨front, rfl, hfront⟩ := segmentFrom_cut h
    have hdepth := segmentFrom_depth h
    refine ⟨front, rfl, hfront, hdepth, ?_⟩
    rw [segmentFrom_of_lexFrom hfront hdepth s.rest] at h
    injection h with h
    rw [← h]
  · rintro ⟨front, rfl, hfront, hdepth, hstop⟩
    rw [segmentFrom_of_lexFrom hfront hdepth s.rest, ← hstop]

theorem dropBytes_append (front rest : List Char) :
    dropBytes (byteLength front) (front ++ rest) = rest := by
  induction front with
  | nil => rw [byteLength, List.nil_append, dropBytes]
  | cons c front ih =>
    have hpos := c.utf8Size_pos
    obtain ⟨n, hn⟩ := Nat.exists_eq_add_of_lt hpos
    have hsize : byteLength (c :: front) = n + byteLength front + 1 := by
      rw [byteLength]
      omega
    rw [hsize, List.cons_append, dropBytes, show n + byteLength front + 1 - c.utf8Size =
      byteLength front by omega, ih]

theorem tokenizeSegment_append (before text : String) :
    tokenizeSegment (before ++ text) before.utf8ByteSize =
      match segmentFrom before.utf8ByteSize 0 text.toList with
      | .ok s => .ok (s.lexemes, s.stop)
      | .error e => .error e := by
  rewrite [tokenizeSegment, String.toList_append, ← byteLength_toList before, dropBytes_append]
  rfl

/-- A text at the start of the source has its tokens wherever it stands in another one. -/
theorem lexFrom_eq_ok_iff :
    lexFrom o cs = .ok ls ↔ ∃ ls', lexFrom 0 cs = .ok ls' ∧ ls = ls'.map (·.shift o) := by
  constructor
  · intro h
    rw [← Nat.zero_add o] at h
    obtain ⟨ls', hls'⟩ := lexFrom_unshift h
    rw [lexFrom_shift hls' o] at h
    injection h with h
    exact ⟨ls', hls', h.symm⟩
  · rintro ⟨ls', hls', rfl⟩
    have h := lexFrom_shift hls' o
    rwa [Nat.zero_add] at h

theorem depthAfter_congr {ls ls' : List Lexeme} (h : ls.map (·.token) = ls'.map (·.token))
    (d : Nat) : depthAfter d ls = depthAfter d ls' := by
  induction ls generalizing ls' d with
  | nil => rw [List.map_eq_nil_iff.mp h.symm]
  | cons l ls ih =>
    cases ls' with
    | nil => cases h
    | cons l' ls' =>
      simp only [List.map_cons, List.cons.injEq] at h
      obtain ⟨htoken, hls⟩ := h
      cases d <;> simp only [depthAfter, htoken, ih hls]

theorem depthAfter_shift (d o : Nat) (ls : List Lexeme) :
    depthAfter d (ls.map (·.shift o)) = depthAfter d ls :=
  depthAfter_congr (by rw [List.map_map]; rfl) d

/-- The text of a balanced body is a segment wherever it stands before a brace. -/
theorem segmentFrom_body {body : String} {ls : List Lexeme} (h : tokenize body = .ok ls)
    (hbalanced : Balanced ls) (o : Nat) (tail : List Char) :
    segmentFrom o 0 (body.toList ++ '\x7d' :: tail) =
      .ok ⟨ls.map (·.shift o), o + byteLength body.toList, tail⟩ := by
  refine segmentFrom_of_lexFrom (lexFrom_eq_ok_iff.mpr ⟨ls, h, rfl⟩) ?_ tail
  rw [depthAfter_shift]
  exact balanced_iff.mp hbalanced

theorem SegmentBody.segmentFrom {text body : String} (h : SegmentBody text body ls) (o : Nat) :
    ∃ tail, text.toList = body.toList ++ '\x7d' :: tail ∧
      segmentFrom o 0 text.toList =
        .ok ⟨ls.map (·.shift o), o + byteLength body.toList, tail⟩ := by
  obtain ⟨⟨after, rfl⟩, htokens, hbalanced⟩ := h
  have htext : (body ++ "\x7d" ++ after).toList = body.toList ++ '\x7d' :: after.toList := by simp
  refine ⟨after.toList, htext, ?_⟩
  rw [htext]
  exact segmentFrom_body htokens hbalanced o after.toList

/-- A text that starts with the body of a segment and a brace has one such beginning only. -/
theorem SegmentBody.unique {text body body' : String} {ls ls' : List Lexeme}
    (h : SegmentBody text body ls) (h' : SegmentBody text body' ls') : body = body' := by
  obtain ⟨tail, htext, hfound⟩ := h.segmentFrom 0
  obtain ⟨tail', htext', hfound'⟩ := h'.segmentFrom 0
  rw [hfound'] at hfound
  injection hfound with hfound
  injection hfound with _ _ htail
  rw [htext', htail] at htext
  exact (String.toList_injective (List.append_cancel_right htext)).symm

end Lexer

/-- A segment that has a tree is the text of an expression, and the brace. -/
theorem parseExpression_of_segmentFrom {o : Nat} {cs : List Char} {s : Lexer.Segment} {eof : Span}
    {n : Node} (h : Lexer.segmentFrom o 0 cs = .ok s) (hn : parseTokens s.lexemes eof = .ok n) :
    ∃ source : String, cs = source.toList ++ '\x7d' :: s.rest ∧ parseExpression source = .ok n := by
  obtain ⟨front, hcs, hfront⟩ := Lexer.segmentFrom_cut h
  rw [← Nat.zero_add o] at hfront
  obtain ⟨ls, hls⟩ := Lexer.lexFrom_unshift hfront
  have hshift := Lexer.lexFrom_shift hls o
  rw [hfront] at hshift
  injection hshift with hshift
  refine ⟨String.ofList front, by rwa [String.toList_ofList], ?_⟩
  rw [parseExpression, tokenize, String.toList_ofList, hls]
  rw [hshift] at hn
  exact parseTokens_respaced (Parser.respaced_unshift o ls) hn _

/-- What is found from a place in a source on is a segment just if a closing brace stands at its end
and the text before the brace has the same tokens, counted from its own start, and their braces
balance. There is only one such end. -/
theorem segment_iff_balanced_text :
    (∀ (before text : String) (ls : List Lexeme) (stop : Nat),
      tokenizeSegment (before ++ text) before.utf8ByteSize = .ok (ls, stop) ↔
        ∃ (body : String) (ls' : List Lexeme), Lexer.SegmentBody text body ls' ∧
          ls = ls'.map (·.shift before.utf8ByteSize) ∧
          stop = (before ++ body).utf8ByteSize) ∧
    ∀ (text body body' : String) (ls ls' : List Lexeme), Lexer.SegmentBody text body ls →
      Lexer.SegmentBody text body' ls' → body = body' := by
  refine ⟨?_, fun _ _ _ _ _ => Lexer.SegmentBody.unique⟩
  intro before text ls stop
  rw [Lexer.tokenizeSegment_append]
  constructor
  · intro h
    split at h
    · next s hs =>
      cases h
      obtain ⟨front, htext, hfront, hdepth, hstop⟩ := Lexer.segmentFrom_eq_ok_iff.mp hs
      obtain ⟨ls', hls', hshift⟩ := Lexer.lexFrom_eq_ok_iff.mp hfront
      rw [hshift, Lexer.depthAfter_shift] at hdepth
      refine ⟨String.ofList front, ls', ⟨⟨String.ofList s.rest, ?_⟩, ?_, ?_⟩, hshift, ?_⟩
      · apply String.toList_injective
        rw [htext]
        simp
      · rwa [tokenize, String.toList_ofList]
      · exact Lexer.balanced_iff.mpr hdepth
      · rw [hstop, String.utf8ByteSize_append, ← Lexer.byteLength_toList (String.ofList front),
          String.toList_ofList]
    · cases h
  · rintro ⟨body, ls', hbody, rfl, rfl⟩
    obtain ⟨tail, -, hfound⟩ := hbody.segmentFrom before.utf8ByteSize
    rw [hfound, Lexer.byteLength_toList, String.utf8ByteSize_append]

/-- Neither the brace within the string nor the one that closes the set ends this segment. -/
theorem segment_ends_once :
    tokenizeSegment "a#\x7b\x7b'\x7d'\x7d \x7d\x7d" 3 =
      .ok ([⟨.symbol .lBrace, ⟨3, 4⟩⟩, ⟨.text "\x7d", ⟨4, 7⟩⟩, ⟨.symbol .rBrace, ⟨7, 8⟩⟩], 9) ∧
    ¬ ∃ ls, Lexer.SegmentBody "\x7b'\x7d'\x7d \x7d\x7d" "\x7b'" ls := by
  have htokens : tokenize "\x7b'\x7d'\x7d " = .ok
      [⟨.symbol .lBrace, ⟨0, 1⟩⟩, ⟨.text "\x7d", ⟨1, 4⟩⟩, ⟨.symbol .rBrace, ⟨4, 5⟩⟩] :=
    Lexer.lexFrom_cons rfl (Lexer.lexFrom_cons rfl (Lexer.lexFrom_cons rfl
      (Lexer.lexFrom_finished rfl)))
  have hbody : Lexer.SegmentBody "\x7b'\x7d'\x7d \x7d\x7d" "\x7b'\x7d'\x7d " _ :=
    ⟨⟨"\x7d", by decide⟩, htokens, Lexer.balanced_iff.mpr rfl⟩
  constructor
  · exact (segment_iff_balanced_text.1 "a#\x7b" _ _ _).mpr ⟨_, _, hbody, rfl, rfl⟩
  · rintro ⟨ls, hls⟩
    have hsame := segment_iff_balanced_text.2 _ _ _ _ _ hbody hls
    exact absurd hsame (by decide)

end ExprLang
