import ExprLang.Proofs.Parser.Inside
import ExprLang.Proofs.Shell.BareLine

/-! Where errors of lines without marks point. A session puts such a line into a segment, and shows an
error against the line at the place that it has in the segment. -/

namespace ExprLang

namespace Lexer

variable {o d k n : Nat} {c q : Char} {cs : List Char} {e : SyntaxError}

/-! ## A closing brace behind a text -/

/-- A string that is not closed takes a brace behind it along, unless it breaks off before. -/
theorem quotedRun_brace (hb : q ≠ '\\') (hq : q ≠ '\x7d') (h : quotedRun q cs = (n, false)) :
    ∃ m, quotedRun q (cs ++ ['\x7d']) = (m, false) ∧
      (m = n ∧ n ≤ cs.length ∨ m = cs.length + 1) := by
  have hbrace : quotedRun q ['\x7d'] = (1, false) := by
    rw [quotedRun_plain hq.symm (by decide)]
    rfl
  fun_induction quotedRun q cs generalizing n with
  | case1 => exact ⟨1, hbrace, .inr rfl⟩
  | case2 => cases h
  | case3 c hc hescape =>
    obtain rfl := beq_iff_eq.mp hescape
    refine ⟨2, ?_, .inr rfl⟩
    rw [List.singleton_append, quotedRun_escaped hb (by decide)]
    rfl
  | case4 c hc hescape d rest hbreak =>
    cases h
    obtain rfl := beq_iff_eq.mp hescape
    obtain rfl := beq_iff_eq.mp hbreak
    refine ⟨0, ?_, .inl ⟨rfl, Nat.zero_le _⟩⟩
    rw [List.cons_append, List.cons_append, quotedRun.eq_def]
    simp [hb.symm]
  | case5 c hc hescape d rest hbreak n' closed hrun ih =>
    cases h
    obtain rfl := beq_iff_eq.mp hescape
    obtain ⟨m, hm, hbound⟩ := ih hrun
    refine ⟨m + 2, ?_, ?_⟩
    · rw [List.cons_append, List.cons_append, quotedRun_escaped hb (by simpa using hbreak), hm]
    · simp only [List.length_cons]
      omega
  | case6 c rest hc hescape n' closed hrun ih =>
    cases h
    obtain ⟨m, hm, hbound⟩ := ih hrun
    refine ⟨m + 1, ?_, ?_⟩
    · rw [List.cons_append, quotedRun_plain (by simpa using hc) (by simpa using hescape), hm]
    · simp only [List.length_cons]
      omega

/-- What is no token is none before a brace, which it may take along where it reaches the end. -/
theorem tokenAt_brace (h : (tokenAt c cs).1 = none) :
    (tokenAt c (cs ++ ['\x7d'])).1 = none ∧
      (cs.take (tokenAt c cs).2 = (cs ++ ['\x7d']).take (tokenAt c (cs ++ ['\x7d'])).2 ∨
        (cs ++ ['\x7d']).take (tokenAt c (cs ++ ['\x7d'])).2 = cs ++ ['\x7d']) := by
  have ht : Parted ['\x7d'] := parted_brace []
  cases hn : startsNumber c cs with
  | true =>
    rw [tokenAt_number hn] at h
    cases h
  | false =>
    have hn' := (startsNumber_append ht c cs).trans hn
    cases hq : (c == '"' || c == '\'') with
    | true =>
      have hquote : c = '"' ∨ c = '\'' := by simpa using hq
      have hrun (ds : List Char) (hds : startsNumber c ds = false) :
          tokenAt c ds = if (quotedRun c ds).2
            then (some (.text (String.ofList (unescape (ds.take ((quotedRun c ds).1 - 1))))),
              (quotedRun c ds).1)
            else (none, (quotedRun c ds).1) := by
        rw [tokenAt, ← startsNumber, if_neg (Bool.eq_false_iff.mp hds), if_pos hq]
      rw [hrun cs hn] at h ⊢
      rw [hrun _ hn']
      cases hclosed : (quotedRun c cs).2 with
      | true =>
        rw [hclosed] at h
        cases h
      | false =>
        obtain ⟨m, hm, hbound⟩ := quotedRun_brace (ne_backslash_of_quote hquote)
          (by rcases hquote with rfl | rfl <;> decide) (Prod.ext rfl hclosed)
        rw [hm]
        refine ⟨rfl, ?_⟩
        rcases hbound with ⟨rfl, hle⟩ | rfl
        · exact .inl (List.take_append_of_le_length hle).symm
        · exact .inr (List.take_of_length_le (by simp))
    | false =>
      cases hw : isNameStart c with
      | true =>
        rw [tokenAt_word hn hq hw] at h
        cases h
      | false =>
        have hnone (ds : List Char) (hds : startsNumber c ds = false)
            (hs : symbolAt? (c :: ds) = none) : tokenAt c ds = (none, 0) := by
          rw [tokenAt, ← startsNumber, if_neg (Bool.eq_false_iff.mp hds),
            if_neg (Bool.eq_false_iff.mp hq), if_neg (Bool.eq_false_iff.mp hw), hs]
        cases hs : symbolAt? (c :: cs) with
        | some s =>
          rw [tokenAt_symbol hn hq hw hs] at h
          cases h
        | none =>
          rw [hnone cs hn hs, hnone _ hn' ((symbolAt?_append ht c cs).trans hs)]
          exact ⟨rfl, .inl rfl⟩

theorem next_refused_spaced {spaces : List Char} (o : Nat)
    (hspaces : ∀ d ∈ spaces, isSpace d = true) (hs : isSpace c = false)
    (h : (tokenAt c cs).1 = none) :
    next o (spaces ++ c :: cs) =
      .refused ⟨.badCharacter (String.ofList (c :: cs.take (tokenAt c cs).2)),
        ⟨o + byteLength spaces,
          o + byteLength spaces + byteLength (c :: cs.take (tokenAt c cs).2)⟩⟩ := by
  have hneg : ¬ isSpace c = true := Bool.eq_false_iff.mp hs
  simp only [next, List.dropWhile_append_of_pos hspaces, List.takeWhile_append_of_pos hspaces,
    List.dropWhile_cons_of_neg hneg, List.takeWhile_cons_of_neg hneg, List.append_nil, h]

/-- What is refused stands behind spaces. -/
theorem next_refused_split (h : next o cs = .refused e) :
    ∃ spaces c rest, cs = spaces ++ c :: rest ∧ (∀ d ∈ spaces, isSpace d = true) ∧
      isSpace c = false ∧ (tokenAt c rest).1 = none := by
  unfold next at h
  dsimp only at h
  split at h
  · cases h
  · next c r hc =>
    split at h
    · cases h
    · next hnone =>
      refine ⟨cs.takeWhile isSpace, c, r, ?_, List.all_eq_true.mp List.all_takeWhile,
        dropWhile_head hc, hnone⟩
      rw [← hc, List.takeWhile_append_dropWhile]

/-- What is no token is refused before a brace as well, perhaps with the brace. -/
theorem next_brace_refused (h : next o cs = .refused e) :
    ∃ e', next o (cs ++ ['\x7d']) = .refused e' ∧ e'.span.start = e.span.start ∧
      (e'.span.stop = e.span.stop ∨ e'.span.stop = o + byteLength cs + 1) := by
  obtain ⟨spaces, c, rest, rfl, hspaces, hs, hnone⟩ := next_refused_split h
  obtain ⟨hnone', htake⟩ := tokenAt_brace hnone
  rw [next_refused_spaced o hspaces hs hnone] at h
  cases h
  rw [List.append_assoc, List.cons_append, next_refused_spaced o hspaces hs hnone']
  refine ⟨_, rfl, rfl, ?_⟩
  rcases htake with hsame | hall
  · rw [hsame]
    exact .inl rfl
  · rw [hall]
    refine .inr ?_
    simp only [byteLength_append, byteLength]
    have hbrace : '\x7d'.utf8Size = 1 := rfl
    omega

/-- Where a text and a brace are no segment, a brace of the text is left open, or the text does not
split into tokens. -/
theorem segmentFrom_brace_refused {e' : SyntaxError}
    (h : segmentFrom o d (cs ++ ['\x7d']) = .error e') :
    e'.span = .point (o + byteLength cs + 1) ∨
      ∃ e, lexFrom o cs = .error e ∧ e'.span.start = e.span.start ∧
        (e'.span.stop = e.span.stop ∨ e'.span.stop = o + byteLength cs + 1) := by
  -- Both go through the same tokens until one is refused or the added brace is reached.
  induction hlen : cs.length using Nat.strongRecOn generalizing o d cs with
  | _ len ih =>
  subst hlen
  cases hn : next o cs with
  | finished stop =>
    obtain ⟨-, rfl⟩ := next_finished_iff.mp hn
    rw [segmentFrom_found (next_brace hn [])] at h
    have hend (d : Nat) : segmentFrom (o + byteLength cs + 1) d [] =
        .error ⟨.openSegment, .point (o + byteLength cs + 1)⟩ := by
      rw [segmentFrom]
      rfl
    split at h
    · cases h
    · dsimp only at h
      rw [hend] at h
      cases h
      exact .inl rfl
  | refused e =>
    obtain ⟨e'', hnext, hstart, hstop⟩ := next_brace_refused hn
    have hsegment : segmentFrom o d (cs ++ ['\x7d']) = .error e'' := by
      rw [segmentFrom]
      split
      · next h' => rw [hnext] at h'; cases h'
      · next h' => rw [hnext] at h'; cases h'; rfl
      · next h' => rw [hnext] at h'; cases h'
    rw [hsegment] at h
    cases h
    exact .inr ⟨e, lexFrom_refused hn, hstart, hstop⟩
  | found l rest =>
    rw [segmentFrom_found (next_append hn (parted_brace []))] at h
    have hstop := next_found_stop hn
    split at h
    · cases h
    · dsimp only at h
      split at h
      · cases h
      · next e'' hrest =>
        cases h
        have hsmaller := ih rest.length (next_shorter hn) hrest rfl
        rw [hstop] at hsmaller
        refine hsmaller.imp_right ?_
        rintro ⟨e, he, hplace⟩
        refine ⟨e, ?_, hplace⟩
        rw [lexFrom_found hn, he]

/-- The tokens before a brace, the brace, and what comes behind it. -/
theorem lexFrom_split_brace {ls : List Lexeme} (h : lexFrom o cs = .ok ls) (rest : List Char) :
    lexFrom o (cs ++ '\x7d' :: rest) =
      match lexFrom (o + byteLength cs + 1) rest with
      | .ok ls' => .ok (ls ++ ⟨.symbol .rBrace, ⟨o + byteLength cs, o + byteLength cs + 1⟩⟩ :: ls')
      | .error e => .error e := by
  fun_induction lexFrom o cs generalizing ls with
  | case1 o cs stop hn =>
    cases h
    obtain ⟨-, rfl⟩ := next_finished_iff.mp hn
    rw [lexFrom_found (next_brace hn rest)]
    rfl
  | case2 => cases h
  | case3 o cs l front hn ls' hr ih =>
    cases h
    rw [lexFrom_found (next_append hn (parted_brace rest)), ih hr, next_found_stop hn]
    cases lexFrom (o + byteLength cs + 1) rest <;> rfl
  | case4 => cases h

/-- A text that does not split into tokens does not do so at a later place. -/
theorem lexFrom_shift_error (h : lexFrom o cs = .error e) (k : Nat) :
    lexFrom (o + k) cs = .error ⟨e.issue, e.span.shift k⟩ := by
  fun_induction lexFrom o cs with
  | case1 => cases h
  | case2 o cs e' hn =>
    cases h
    have hnext : next (o + k) cs = .refused ⟨e.issue, e.span.shift k⟩ := by
      rw [next_shift, hn]
      rfl
    exact lexFrom_refused hnext
  | case3 => cases h
  | case4 o cs l rest hn e' he ih =>
    cases h
    have hnext : next (o + k) cs = .found (l.shift k) rest := by
      rw [next_shift, hn]
      rfl
    rw [lexFrom_found hnext, show (l.shift k).span.stop = l.span.stop + k from rfl, ih he]

end Lexer

/-! ## Places in a segment -/

/-- The places of a line of `n` bytes in its segment: the marker takes two bytes before it, and what
reaches the end of the line may reach over the brace. -/
structure Span.Displaced (n : Nat) (a b : Span) : Prop where
  bounded : a.stop ≤ n
  start : b.start = a.start + 2
  stop : b.stop = a.stop + 2 ∨ b.stop = n + 3

theorem Span.Displaced.merge {n : Nat} {a b a' b' : Span} (ha : a.Displaced n a')
    (hb : b.Displaced n b') : (a.merge b).Displaced n (a'.merge b') where
  bounded := Nat.max_le.mpr ⟨ha.bounded, hb.bounded⟩
  start := by
    have hstart := ha.start
    have hstart' := hb.start
    simp only [Span.merge]
    omega
  stop := by
    have hstop := ha.stop
    have hstop' := hb.stop
    have hbound := ha.bounded
    have hbound' := hb.bounded
    simp only [Span.merge]
    omega

theorem Span.displaced_shift {n : Nat} {a : Span} (h : a.stop ≤ n) : a.Displaced n (a.shift 2) :=
  ⟨h, rfl, .inl rfl⟩

/-- The text behind some brace of the line does not split into tokens, for this reason. -/
def UnreadBehindBrace (line : String) (e : SyntaxError) : Prop :=
  ∃ before after ls y, line = before ++ "\x7d" ++ after ∧ tokenize before = .ok ls ∧
    tokenize after = .error y ∧ e = ⟨y.issue, y.span.shift (before.utf8ByteSize + 1)⟩

open Lexer (lexFrom segmentFrom)
open Template

variable {line : String} {e e' : SyntaxError}

/-- The error of the line is that of the text behind the brace. -/
theorem UnreadBehindBrace.parseExpression (h : UnreadBehindBrace line e) :
    parseExpression line = .error e := by
  obtain ⟨before, after, ls, y, hsplit, hbefore, hafter, rfl⟩ := h
  have hlater := Lexer.lexFrom_shift_error hafter (before.utf8ByteSize + 1)
  rw [Nat.zero_add] at hlater
  have hline := Lexer.lexFrom_split_brace hbefore after.toList
  rw [Nat.zero_add, Lexer.byteLength_toList, hlater, ← toList_stray, ← hsplit] at hline
  rw [ExprLang.parseExpression, tokenize, hline]

/-- A segment that is the whole line. -/
theorem whole_line_displaced {ts : List Lexeme} (hts : tokenize line = .ok ts)
    (h : parseTokens (ts.map (·.shift 2))
      ⟨2 + line.utf8ByteSize, 2 + line.utf8ByteSize + 1⟩ = .error e') :
    ∃ e, parseExpression line = .error e ∧ e.span.Displaced line.utf8ByteSize e'.span := by
  have hplaces := @tokenize_between line
  rw [hts] at hplaces
  let c : Parser.Copying :=
    { distance := 2
      tail := []
      eof := .point line.utf8ByteSize
      eof' := ⟨2 + line.utf8ByteSize, 2 + line.utf8ByteSize + 1⟩
      Pairs := Span.Displaced line.utf8ByteSize
      merge := Span.Displaced.merge
      edge := ⟨Nat.le_refl _, Nat.add_comm _ _, .inr (by simp only []; omega)⟩
      brace := nofun }
  obtain ⟨e, he, hspan⟩ := parseTokens_refused_beside (c := c)
    (fun t ht => Span.displaced_shift (hplaces t ht).inside.bounded) (.inl rfl) h
  rw [List.append_nil] at he
  refine ⟨e, ?_, hspan⟩
  rw [parseExpression, hts]
  exact he

/-- A segment that ends at a brace of the line which closes nothing. -/
theorem stray_brace_displaced {before after : String} {ts : List Lexeme}
    (hsplit : line = before ++ "\x7d" ++ after) (hts : tokenize before = .ok ts)
    (hdepth : Lexer.depthAfter 0 ts = some 0)
    (h : parseTokens (ts.map (·.shift 2))
      ⟨2 + before.utf8ByteSize, 2 + before.utf8ByteSize + 1⟩ = .error e') :
    ∃ e, parseExpression line = .error e ∧
      (e.span.Displaced line.utf8ByteSize e'.span ∨ UnreadBehindBrace line e) := by
  cases hafter : tokenize after with
  | error y =>
    have hunread : UnreadBehindBrace line _ := ⟨before, after, ts, y, hsplit, hts, hafter, rfl⟩
    exact ⟨_, hunread.parseExpression, .inr hunread⟩
  | ok us =>
    have hlater := Lexer.lexFrom_shift hafter (before.utf8ByteSize + 1)
    rw [Nat.zero_add] at hlater
    have hline := Lexer.lexFrom_split_brace hts after.toList
    rw [Nat.zero_add, Lexer.byteLength_toList, hlater, ← toList_stray, ← hsplit] at hline
    let c : Parser.Copying :=
      { distance := 2
        tail := ⟨.symbol .rBrace, ⟨before.utf8ByteSize, before.utf8ByteSize + 1⟩⟩ ::
          us.map (·.shift (before.utf8ByteSize + 1))
        eof := .point line.utf8ByteSize
        eof' := ⟨2 + before.utf8ByteSize, 2 + before.utf8ByteSize + 1⟩
        Pairs := fun a b => b = a.shift 2
        merge := by
          rintro a b _ _ rfl rfl
          simp [Span.merge, Span.shift, Nat.add_min_add_right, Nat.add_max_add_right]
        edge := by
          simp only [Parser.placeOf, Span.shift, Span.mk.injEq]
          omega
        brace := by
          rintro _ _ ⟨⟩
          rfl }
    obtain ⟨e, he, hspan⟩ :=
      parseTokens_refused_beside (c := c) (fun _ _ => rfl) (.inr hdepth) h
    have hparse : parseExpression line = .error e := by
      rw [parseExpression, tokenize, hline]
      exact he
    refine ⟨e, hparse, .inl ?_⟩
    rw [show e'.span = e.span.shift 2 from hspan]
    exact Span.displaced_shift (parseExpression_between hparse).inside.bounded

theorem partsFrom_opening_error {offset : Nat} {literal cs rest : List Char} {c : Char} {m : Marker}
    (hc : head c cs = .opening m rest) (hs : segmentFrom (offset + 2) 0 rest = .error e) :
    partsFrom offset literal (c :: cs) = .error e := by
  rw [partsFrom]
  split
  · next h => rw [hc] at h; cases h
  · next h => rw [hc] at h; cases h
  · next h =>
    rw [hc] at h
    cases h
    split
    · next h => rw [hs] at h; cases h; rfl
    · next h => rw [hs] at h; cases h

/-- The text of a segment in which a line stands is the line, or what stands before a brace in it. -/
theorem line_of_segment {source : String} {rest : List Char}
    (h : line.toList ++ ['\x7d'] = source.toList ++ '\x7d' :: rest) :
    source = line ∨ ∃ after, line = source ++ "\x7d" ++ after := by
  rcases List.eq_nil_or_concat rest with rfl | ⟨after, last, rfl⟩
  · exact .inl (String.toList_injective (List.append_cancel_right h)).symm
  · rw [List.concat_eq_append, ← List.cons_append, ← List.append_assoc] at h
    obtain ⟨hline, -⟩ := List.append_inj' h rfl
    refine .inr ⟨String.ofList after, String.toList_injective ?_⟩
    rw [toList_stray, String.toList_ofList]
    exact hline

/-- A line that does not split into tokens, in its segment. -/
theorem unread_line_displaced (h : lexFrom 2 line.toList = .error e)
    (hstart : e'.span.start = e.span.start)
    (hstop : e'.span.stop = e.span.stop ∨
      e'.span.stop = 2 + Lexer.byteLength line.toList + 1) :
    ∃ e, parseExpression line = .error e ∧
      (e.span.Displaced line.utf8ByteSize e'.span ∨ e'.span = .point (line.utf8ByteSize + 3) ∨
        UnreadBehindBrace line e) := by
  cases htokens : tokenize line with
  | ok ls =>
    have hlater := Lexer.lexFrom_shift htokens 2
    rw [Nat.zero_add, h] at hlater
    cases hlater
  | error y =>
    have hlater := Lexer.lexFrom_shift_error htokens 2
    rw [Nat.zero_add, h] at hlater
    cases hlater
    have hparse : parseExpression line = .error y := by rw [parseExpression, htokens]
    have hbound := (parseExpression_between hparse).inside.bounded
    rw [Lexer.byteLength_toList] at hstop
    refine ⟨y, hparse, .inl ⟨hbound, hstart, hstop.imp_right fun hend => ?_⟩⟩
    omega

/-- A line that its segment does not turn into a tree is no expression, and the error of the segment
points to a later place, or the one of the line comes from behind a brace. -/
theorem wrapped_refused (hline : marked line.toList = false)
    (h : parseTemplate (String.ofList (Marker.dynamic.spelling ++ line.toList ++ ['\x7d'])) =
      .error e') :
    ∃ e, parseExpression line = .error e ∧
      (e.span.Displaced line.utf8ByteSize e'.span ∨ e'.span = .point (line.utf8ByteSize + 3) ∨
        UnreadBehindBrace line e) := by
  have hnone (n : Node) : parseExpression line ≠ .ok n := fun hn => by
    rw [parseTemplate_segment .dynamic line hn] at h
    cases h
  have hstray : ¬ StrayBrace line := by
    rintro ⟨before, after, body, hsplit, hbody⟩
    rw [parseTemplate_stray .dynamic hline hsplit hbody] at h
    cases h
  obtain ⟨c, cs, hcs, hc⟩ := head_opening .dynamic (line.toList ++ ['\x7d'])
  rw [parseTemplate, String.toList_ofList, List.append_assoc, hcs] at h
  cases hs : segmentFrom (0 + 2) 0 (line.toList ++ ['\x7d']) with
  | error e'' =>
    rw [partsFrom_opening_error hc hs] at h
    cases h
    rcases Lexer.segmentFrom_brace_refused hs with hopen | ⟨e, he, hstart, hstop⟩
    · cases hparse : parseExpression line with
      | ok n => exact absurd hparse (hnone n)
      | error e =>
        refine ⟨e, rfl, .inr (.inl ?_)⟩
        rw [hopen, Lexer.byteLength_toList]
        congr 1
        omega
    · exact unread_line_displaced he hstart hstop
  | ok segment =>
    rw [partsFrom_opening hc hs] at h
    cases hnode : parseTokens segment.lexemes ⟨segment.stop, segment.stop + 1⟩ with
    | ok n =>
      -- then the line is read, as a whole or up to a brace
      obtain ⟨source, hsource, hparsed⟩ := parseExpression_of_segmentFrom hs hnode
      rcases line_of_segment hsource with hall | ⟨after, hsplit⟩
      · exact absurd (hall ▸ hparsed) (hnone n)
      · exact absurd ⟨source, after, n, hsplit, hparsed⟩ hstray
    | error e'' =>
      rw [hnode] at h
      cases h
      obtain ⟨front, hfront, hlexemes, hdepth, hstop⟩ := Lexer.segmentFrom_eq_ok_iff.mp hs
      obtain ⟨ts, hts, hshift⟩ := Lexer.lexFrom_eq_ok_iff.mp hlexemes
      rw [← String.toList_ofList (l := front)] at hfront hts
      rw [hshift, Lexer.depthAfter_shift] at hdepth
      rw [hshift, hstop, ← String.toList_ofList (l := front), Lexer.byteLength_toList] at hnode
      rcases line_of_segment hfront with hall | ⟨after, hsplit⟩
      · rw [hall] at hts hnode
        obtain ⟨e, he, hspan⟩ := whole_line_displaced hts hnode
        exact ⟨e, he, .inl hspan⟩
      · obtain ⟨e, he, hspan⟩ := stray_brace_displaced hsplit hts hdepth hnode
        exact ⟨e, he, hspan.imp_right .inr⟩

namespace Session

/-- The error points to a range of the line, the one that the line as an expression is refused for. -/
structure Located (line : String) (e' : SyntaxError) : Prop where
  ordered : e'.span.start ≤ e'.span.stop
  bounded : e'.span.stop ≤ line.utf8ByteSize
  same : ∃ e, parseExpression line = .error e ∧ e.span = e'.span

theorem parseTemplate_of_lineTree {s : Session} (hs : s.factory.Reached)
    (h : s.lineTree line = .error (.parse e')) : parseTemplate (template line) = .error e' := by
  have htree : s.lineTree line = (parseTemplate (template line)).mapError Fault.parse :=
    hs.parse_eq (template line)
  rw [h] at htree
  cases hparse : parseTemplate (template line) with
  | ok n =>
    rw [hparse] at htree
    cases htree
  | error e =>
    rw [hparse] at htree
    cases htree
    rfl

/-- A line without marks that cannot be read is refused for what is wrong with its segment, and the error
is shown at a later place than the line's own one. The two are the same only where the text behind a brace
of the line does not split into tokens, and by chance. -/
theorem located_iff {s : Session} (hs : s.factory.Reached) (hline : marked line.toList = false)
    (h : s.lineTree line = .error (.parse e')) :
    (s.evalLine line).1 = .fault (.parse e') s.world ∧
    (∃ e, parseExpression line = .error e ∧
      (e.span.Displaced line.utf8ByteSize e'.span ∨ e'.span = .point (line.utf8ByteSize + 3) ∨
        UnreadBehindBrace line e)) ∧
    (Located line e' ↔ ∃ e, UnreadBehindBrace line e ∧ e.span = e'.span) := by
  have htemplate := parseTemplate_of_lineTree hs h
  have heval := (evalTemplate_eq hs s.world (template line)).1
  rw [htemplate] at heval
  rw [template_of_unmarked hline] at htemplate
  obtain ⟨e, hparse, hplace⟩ := wrapped_refused hline htemplate
  have hbound := (parseExpression_between hparse).inside
  refine ⟨heval, ⟨e, hparse, hplace⟩, ⟨fun hlocated => ?_, ?_⟩⟩
  · obtain ⟨e'', hparse', hsame⟩ := hlocated.same
    rw [hparse] at hparse'
    cases hparse'
    rcases hplace with hmoved | hpoint | hunread
    · have hstart := hmoved.start
      rw [hsame] at hstart
      omega
    · have hbounded := hlocated.bounded
      rw [hpoint, Span.point] at hbounded
      dsimp only at hbounded
      omega
    · exact ⟨e, hunread, hsame⟩
  · rintro ⟨e'', hunread, hsame⟩
    have hparse' := hunread.parseExpression
    rw [hparse] at hparse'
    cases hparse'
    rw [hsame] at hbound
    exact ⟨hbound.ordered, hbound.bounded, e, hparse, hsame⟩

/-- The parenthesis is refused in the segment, and the last character of the line in the line. -/
theorem twice_wrong_line_located :
    (ofSettings {}).factory.Reached ∧ marked ")\x7d@".toList = false ∧
      (ofSettings {}).lineTree ")\x7d@" =
        .error (.parse ⟨.expected "expression" (some ")"), ⟨2, 3⟩⟩) ∧
      Located ")\x7d@" ⟨.expected "expression" (some ")"), ⟨2, 3⟩⟩ := by
  have hs : (ofSettings {}).factory.Reached := factory_reached {} []
  have hline : marked ")\x7d@".toList = false := by decide
  have hparse : parseTemplate (template ")\x7d@") =
      .error ⟨.expected "expression" (some ")"), ⟨2, 3⟩⟩ := by
    rw [template_of_unmarked hline]
    exact error_of_error? (by decide +kernel)
  have htree : (ofSettings {}).lineTree ")\x7d@" = _ := hs.parse_eq (template ")\x7d@")
  rw [hparse] at htree
  refine ⟨hs, hline, htree, (located_iff hs hline htree).2.2.mpr ?_⟩
  have hbefore : tokenize ")" = .ok [⟨.symbol .rParen, ⟨0, 1⟩⟩] :=
    Lexer.lexFrom_cons rfl (Lexer.lexFrom_finished rfl)
  have hafter : tokenize "@" = .error ⟨.badCharacter "@", ⟨0, 1⟩⟩ :=
    error_of_error? (by decide +kernel)
  exact ⟨_, ⟨")", "@", _, _, by decide, hbefore, hafter, rfl⟩, rfl⟩

/-- The line has three bytes, and the place that is shown begins two bytes behind its end. -/
theorem unfinished_sum_misplaced :
    marked "1 +".toList = false ∧
      ((ofSettings {}).evalLine "1 +").1 =
        .fault (.parse ⟨.expected "expression" none, ⟨5, 6⟩⟩) (ofSettings {}).world ∧
      parseExpression "1 +" = .error ⟨.expected "expression" none, ⟨3, 3⟩⟩ ∧
      ¬ Located "1 +" ⟨.expected "expression" none, ⟨5, 6⟩⟩ := by
  have hs : (ofSettings {}).factory.Reached := factory_reached {} []
  have hline : marked "1 +".toList = false := by decide
  have hparse : parseTemplate (template "1 +") =
      .error ⟨.expected "expression" none, ⟨5, 6⟩⟩ := by
    rw [template_of_unmarked hline]
    exact error_of_error? (by decide +kernel)
  have heval := (evalTemplate_eq hs (ofSettings {}).world (template "1 +")).1
  rw [hparse] at heval
  refine ⟨hline, heval, error_of_error? (by decide +kernel), fun hlocated => ?_⟩
  exact absurd hlocated.bounded (by decide)

end Session

end ExprLang
