import ExprLang.Template

/-! The lexer and the reader of templates, one token or one part at a time. -/

namespace ExprLang

namespace Lexer

variable {offset depth : Nat} {cs rest : List Char} {l : Lexeme}

theorem lexFrom_found (h : next offset cs = .found l rest) :
    lexFrom offset cs =
      match lexFrom l.span.stop rest with
      | .ok ls => .ok (l :: ls)
      | .error e => .error e := by
  rw [lexFrom]
  split
  · next h' => rw [h] at h'; cases h'
  · next h' => rw [h] at h'; cases h'
  · next h' => rw [h] at h'; cases h'; rfl

theorem lexFrom_cons {ls : List Lexeme} (h : next offset cs = .found l rest)
    (hls : lexFrom l.span.stop rest = .ok ls) : lexFrom offset cs = .ok (l :: ls) := by
  rw [lexFrom_found h, hls]

theorem lexFrom_finished {stop : Nat} (h : next offset cs = .finished stop) :
    lexFrom offset cs = .ok [] := by
  rw [lexFrom]
  split
  · rfl
  · next h' => rw [h] at h'; cases h'
  · next h' => rw [h] at h'; cases h'

theorem lexFrom_refused {e : SyntaxError} (h : next offset cs = .refused e) :
    lexFrom offset cs = .error e := by
  rw [lexFrom]
  split
  · next h' => rw [h] at h'; cases h'
  · next h' => rw [h] at h'; cases h'; rfl
  · next h' => rw [h] at h'; cases h'

theorem segmentFrom_found (h : next offset cs = .found l rest) :
    segmentFrom offset depth cs =
      if l.token = .symbol .rBrace ∧ depth = 0 then .ok ⟨[], l.span.start, rest⟩
      else
        let deeper :=
          if l.token = .symbol .lBrace then depth + 1
          else if l.token = .symbol .rBrace then depth - 1
          else depth
        match segmentFrom l.span.stop deeper rest with
        | .ok s => .ok { s with lexemes := l :: s.lexemes }
        | .error e => .error e := by
  rw [segmentFrom]
  split
  · next h' => rw [h] at h'; cases h'
  · next h' => rw [h] at h'; cases h'
  · next h' => rw [h] at h'; cases h'; rfl

end Lexer

namespace Template

variable {offset : Nat} {literal rest rest' : List Char} {c : Char} {marker : Marker}

theorem partsFrom_letter (hc : head c rest = .letter c rest) :
    partsFrom offset literal (c :: rest) = partsFrom (offset + c.utf8Size) (c :: literal) rest := by
  rw [partsFrom]
  split
  · next h => rw [hc] at h; cases h
  · next h => rw [hc] at h; cases h; rfl
  · next h => rw [hc] at h; cases h

theorem partsFrom_escaped (hc : head c rest = .escaped marker rest') :
    partsFrom offset literal (c :: rest) =
      partsFrom (offset + 3) (marker.spelling.reverse ++ literal) rest' := by
  rw [partsFrom]
  split
  · next h => rw [hc] at h; cases h; rfl
  · next h => rw [hc] at h; cases h
  · next h => rw [hc] at h; cases h

/-- A segment, from the marker that opens it. -/
theorem partsFrom_opening {segment : Lexer.Segment} (hc : head c rest = .opening marker rest')
    (hs : Lexer.segmentFrom (offset + 2) 0 rest' = .ok segment) :
    partsFrom offset literal (c :: rest) =
      match parseTokens segment.lexemes ⟨segment.stop, segment.stop + 1⟩ with
      | .error e => .error e
      | .ok node =>
        match partsFrom (segment.stop + 1) [] segment.rest with
        | .error e => .error e
        | .ok parts => .ok (flush literal (marker.wrap node :: parts)) := by
  rw [partsFrom]
  split
  · next h => rw [hc] at h; cases h
  · next h => rw [hc] at h; cases h
  · next h =>
    rw [hc] at h
    cases h
    split
    · next h => rw [hs] at h; cases h
    · next h => rw [hs] at h; cases h; rfl

end Template

end ExprLang
