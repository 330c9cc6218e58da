import ExprLang.Proofs.Lexer.Unfold
import ExprLang.Proofs.Lexer.Written
import Mathlib.Data.List.TakeWhile

/-! The tokens of a segment are those of the text before its closing brace. -/

namespace ExprLang

/-- A token so many bytes later. -/
def Lexeme.shift (l : Lexeme) (distance : Nat) : Lexeme := ⟨l.token, l.span.shift distance⟩

namespace Lexer

variable {o k d : Nat} {cs rest tail : List Char} {l : Lexeme} {ls : List Lexeme}

/-! ## Texts that start later -/

def Next.shift (k : Nat) : Next → Next
  | finished stop => finished (stop + k)
  | found l rest => found (l.shift k) rest
  | refused e => refused ⟨e.issue, e.span.shift k⟩

theorem next_shift (o k : Nat) (cs : List Char) : next (o + k) cs = (next o cs).shift k := by
  unfold next
  dsimp only
  split
  · simp [Next.shift, Nat.add_right_comm]
  · split <;> simp [Next.shift, Lexeme.shift, Span.shift, Nat.add_right_comm]

theorem lexFrom_shift (h : lexFrom o cs = .ok ls) (k : Nat) :
    lexFrom (o + k) cs = .ok (ls.map (·.shift k)) := by
  fun_induction lexFrom o cs generalizing ls with
  | case1 o cs stop hn =>
    cases h
    have hnext : next (o + k) cs = .finished (stop + k) := by rw [next_shift, hn]; rfl
    exact lexFrom_finished hnext
  | case2 => cases h
  | case3 o cs l rest hn ls' hr ih =>
    cases h
    have hnext : next (o + k) cs = .found (l.shift k) rest := by rw [next_shift, hn]; rfl
    rw [lexFrom_found hnext, show (l.shift k).span.stop = l.span.stop + k from rfl, ih hr]
    rfl
  | case4 => cases h

/-! ## Texts that go on -/

theorem next_append (h : next o cs = .found l rest) (ht : Parted tail) :
    next o (cs ++ tail) = .found l (rest ++ tail) := by
  obtain ⟨spaces, c, body, rfl, hspaces, hs, htoken, hspan⟩ := next_split h
  have hlonger := tokenAt_append htoken ht
  rw [List.append_assoc] at hlonger
  rw [List.append_assoc, List.cons_append, List.append_assoc, next_spaced o hspaces hs hlonger,
    ← hspan]

/-- Nothing but spaces is left where the text ends. -/
theorem next_finished_iff {stop : Nat} :
    next o cs = .finished stop ↔ (∀ d ∈ cs, isSpace d = true) ∧ stop = o + byteLength cs := by
  constructor
  · intro h
    unfold next at h
    dsimp only at h
    split at h
    · next hnil =>
      cases h
      have hsplit := List.takeWhile_append_dropWhile (p := isSpace) (l := cs)
      rw [hnil, List.append_nil] at hsplit
      exact ⟨List.dropWhile_eq_nil_iff.mp hnil, by rw [hsplit]⟩
    · split at h <;> cases h
  · rintro ⟨hspaces, rfl⟩
    have hdrop : cs.dropWhile isSpace = [] := List.dropWhile_eq_nil_iff.mpr hspaces
    have htake : cs.takeWhile isSpace = cs := List.takeWhile_eq_self_iff.mpr hspaces
    simp only [next, hdrop, htake]

/-- A sign of one character after nothing but spaces. -/
theorem next_symbol {stop : Nat} {c : Char} {s : Symbol} (h : next o cs = .finished stop)
    (hc : isSpace c = false) (hs : tokenAt c tail = (some (.symbol s), 0)) :
    next o (cs ++ c :: tail) = .found ⟨.symbol s, ⟨stop, stop + c.utf8Size⟩⟩ tail := by
  obtain ⟨hspaces, rfl⟩ := next_finished_iff.mp h
  have hfound : tokenAt c ([] ++ tail) = (some (.symbol s), ([] : List Char).length) := hs
  exact next_spaced o hspaces hc hfound

/-- A closing brace after nothing but spaces. -/
theorem next_brace {stop : Nat} (h : next o cs = .finished stop) (tail : List Char) :
    next o (cs ++ '\x7d' :: tail) = .found ⟨.symbol .rBrace, ⟨stop, stop + 1⟩⟩ tail :=
  next_symbol h rfl rfl

/-- The token and what comes after it end where the text does. -/
theorem next_found_stop (h : next o cs = .found l rest) :
    l.span.stop + byteLength rest = o + byteLength cs := by
  obtain ⟨spaces, c, body, rfl, -, -, -, hspan⟩ := next_split h
  rw [hspan]
  simp only [byteLength_append, byteLength]
  omega

/-- The tokens of a text and of a closing parenthesis after it. -/
theorem lexFrom_paren (h : lexFrom o cs = .ok ls) :
    lexFrom o (cs ++ [')']) =
      .ok (ls ++ [⟨.symbol .rParen, ⟨o + byteLength cs, o + byteLength cs + 1⟩⟩]) := by
  fun_induction lexFrom o cs generalizing ls with
  | case1 o cs stop hn =>
    cases h
    have hparen : next o (cs ++ [')']) = .found ⟨.symbol .rParen, ⟨stop, stop + 1⟩⟩ [] :=
      next_symbol hn rfl rfl
    have hend : next (stop + 1) [] = .finished (stop + 1) := rfl
    rw [lexFrom_found hparen, lexFrom_finished hend, (next_finished_iff.mp hn).2]
    rfl
  | case2 => cases h
  | case3 o cs l rest hn ls' hr ih =>
    cases h
    rw [lexFrom_found (next_append hn (parted_paren [])), ih hr, next_found_stop hn]
    rfl
  | case4 => cases h

/-! ## Segments -/

/-- The number of open braces after these tokens, where so many were open before them; none if a
brace is closed that is not open. -/
def depthAfter : Nat → List Lexeme → Option Nat
  | d, [] => some d
  | d, l :: ls =>
    if l.token = .symbol .lBrace then depthAfter (d + 1) ls
    else if l.token = .symbol .rBrace then
      match d with
      | 0 => none
      | d + 1 => depthAfter d ls
    else depthAfter d ls

/-- A text that closes the braces it opens, and closes no other, is a segment before a brace. -/
theorem segmentFrom_of_lexFrom (h : lexFrom o cs = .ok ls) (hd : depthAfter d ls = some 0)
    (tail : List Char) :
    segmentFrom o d (cs ++ '\x7d' :: tail) = .ok ⟨ls, o + byteLength cs, tail⟩ := by
  fun_induction lexFrom o cs generalizing ls d with
  | case1 o cs stop hn =>
    cases h
    cases hd
    rw [segmentFrom_found (next_brace hn tail), if_pos ⟨rfl, rfl⟩, (next_finished_iff.mp hn).2]
  | case2 => cases h
  | case3 o cs l rest hn ls' hr ih =>
    cases h
    have hstop := next_found_stop hn
    rw [segmentFrom_found (next_append hn (parted_brace tail)), ← hstop]
    simp only [depthAfter] at hd
    split at hd
    · next hopen => simp [hopen, ih hr hd]
    · next hopen =>
      split at hd
      · next hclose =>
        cases d with
        | zero => cases hd
        | succ d => simp [hclose, ih hr hd]
      · next hclose => simp [hopen, hclose, ih hr hd]
  | case4 => cases h

end Lexer

end ExprLang
