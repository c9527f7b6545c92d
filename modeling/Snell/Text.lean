/-
Text as lists of characters, with the operations of Rust's `str` that line
parsers use: `lines`, `trim`, `split_once`, and comparison without regard to
the case of ASCII letters.
-/
import Mathlib.Data.List.DropRight
import Mathlib.Data.List.Nodup

/-- A `str`: Unicode scalar values. -/
abbrev Text := List Char

namespace Text

/-- `char::is_whitespace`: the Unicode property White_Space. -/
def isWhitespace (c : Char) : Bool :=
  let n := c.toNat
  (9 ≤ n && n ≤ 13) || n == 0x20 || n == 0x85 || n == 0xa0 || n == 0x1680 || (0x2000 ≤ n && n ≤ 0x200a) ||
    n == 0x2028 || n == 0x2029 || n == 0x202f || n == 0x205f || n == 0x3000

/-- `str::trim` -/
def trim (t : Text) : Text := (t.dropWhile isWhitespace).rdropWhile isWhitespace

/-- `str::strip_suffix` with a character. -/
def stripSuffix (c : Char) (t : Text) : Option Text := if t.getLast? = some c then some t.dropLast else none

/-- `str::strip_prefix` with a character. -/
def stripPrefix (c : Char) : Text → Option Text
  | [] => none
  | d :: t => if d = c then some t else none

/-- `str::split_once` with a character. -/
def splitOnce (c : Char) (t : Text) : Option (Text × Text) :=
  if c ∈ t then some (t.takeWhile (· ≠ c), (t.dropWhile (· ≠ c)).tail) else none

/-- `str::split_inclusive('\n')` -/
def splitInclusive : Text → List Text
  | [] => []
  | c :: t =>
    if c = '\n' then [c] :: splitInclusive t
    else
      match splitInclusive t with
      | [] => [[c]]
      | piece :: pieces => (c :: piece) :: pieces

/-- A piece without its line ending, which is `\n` or `\r\n`. -/
def withoutEnding (piece : Text) : Text :=
  match stripSuffix '\n' piece with
  | none => piece
  | some line => (stripSuffix '\r' line).getD line

/-- `str::lines` -/
def lines (t : Text) : List Text := (splitInclusive t).map withoutEnding

/-- `str::to_ascii_lowercase` -/
def toAsciiLowercase (t : Text) : Text := t.map Char.toLower

/-- `str::eq_ignore_ascii_case` -/
def eqIgnoreAsciiCase (a b : Text) : Bool := a.toAsciiLowercase == b.toAsciiLowercase

/-! ## Trimming -/

theorem rdropWhile_append_cons {p : Char → Bool} {c : Char} (h : p c = false) (x y : Text) :
    (x ++ c :: y).rdropWhile p = x ++ c :: y.rdropWhile p := by
  induction y using List.reverseRecOn with
  | nil => rw [List.rdropWhile_concat_neg p x c (by simp [h])]; rfl
  | append_singleton y d ih =>
    rw [← List.cons_append, ← List.append_assoc]
    by_cases hd : p d = true
    · rw [List.rdropWhile_concat_pos p _ d hd, ih, List.rdropWhile_concat_pos p y d hd]
    · rw [List.rdropWhile_concat_neg p _ d hd, List.rdropWhile_concat_neg p y d hd, List.append_assoc]
      rfl

/-- Whitespace at the end is trimmed. -/
theorem trim_concat {c : Char} (h : isWhitespace c = true) (t : Text) : trim (t ++ [c]) = trim t := by
  by_cases hall : ∀ d ∈ t, isWhitespace d = true
  · have ht : t.dropWhile isWhitespace = [] := List.dropWhile_eq_nil_iff.mpr hall
    have htc : (t ++ [c]).dropWhile isWhitespace = [] := by
      refine List.dropWhile_eq_nil_iff.mpr fun d hd => ?_
      rcases List.mem_append.mp hd with hd | hd
      · exact hall d hd
      · rw [List.mem_singleton.mp hd]; exact h
    rw [trim, trim, ht, htc]
  · have hsplit : (t ++ [c]).dropWhile isWhitespace = t.dropWhile isWhitespace ++ [c] := by
      rw [List.dropWhile_append]
      refine if_neg fun hempty => hall ?_
      exact List.dropWhile_eq_nil_iff.mp (List.isEmpty_iff.mp hempty)
    rw [trim, trim, hsplit, List.rdropWhile_concat_pos _ _ _ h]

/-- A text that starts with `c`, which is no whitespace, and has `d`, which is
none, as its last such character. -/
theorem trim_eq {c d : Char} (hc : isWhitespace c = false) (hd : isWhitespace d = false) {t x y : Text}
    (ht : t = x ++ d :: y) (hx : ∃ rest, t = c :: rest) : trim t = x ++ d :: y.rdropWhile isWhitespace := by
  obtain ⟨rest, hrest⟩ := hx
  rw [trim, hrest, List.dropWhile_cons_of_neg (by simp [hc]), ← hrest, ht, rdropWhile_append_cons hd]

/-- Trimmed and not empty: neither end is whitespace. -/
theorem trimmed_ends {t : Text} (h : trim t = t) (hne : t ≠ []) :
    (∃ c rest, t = c :: rest ∧ isWhitespace c = false) ∧ ∃ front d, t = front ++ [d] ∧ isWhitespace d = false := by
  have hdrop : t.dropWhile isWhitespace = t := by
    refine List.dropWhile_eq_self_iff.mpr ?_
    intro hlen
    by_contra hws
    have hlt : (t.dropWhile isWhitespace).length < t.length := by
      cases t with
      | nil => exact absurd rfl hne
      | cons c rest =>
        rw [List.dropWhile_cons_of_pos (by simpa using hws)]
        exact Nat.lt_succ_of_le (List.length_dropWhile_le _ _)
    have hle : (trim t).length ≤ (t.dropWhile isWhitespace).length :=
      (List.rdropWhile_prefix isWhitespace _).length_le
    rw [h] at hle
    omega
  constructor
  · cases t with
    | nil => exact absurd rfl hne
    | cons c rest =>
      refine ⟨c, rest, rfl, ?_⟩
      have := List.dropWhile_eq_self_iff.mp hdrop (Nat.succ_pos _)
      simpa using this
  · have hr : t.rdropWhile isWhitespace = t := by
      have := h
      rwa [trim, hdrop] at this
    have hlast := List.rdropWhile_eq_self_iff.mp hr hne
    exact ⟨t.dropLast, t.getLast hne, (List.dropLast_concat_getLast hne).symm, by simpa using hlast⟩

/-! ## Lines -/

theorem splitInclusive_line {line : Text} (h : '\n' ∉ line) (rest : Text) :
    splitInclusive (line ++ '\n' :: rest) = (line ++ ['\n']) :: splitInclusive rest := by
  induction line with
  | nil => simp [splitInclusive]
  | cons c line ih =>
    have hc : c ≠ '\n' := fun hc => h (hc ▸ List.mem_cons_self)
    rw [List.cons_append, splitInclusive, if_neg hc, ih fun hm => h (List.mem_cons_of_mem _ hm)]
    rfl

/-- A line's ending is whitespace. -/
theorem trim_withoutEnding (line : Text) : trim (withoutEnding (line ++ ['\n'])) = trim line := by
  have hn : stripSuffix '\n' (line ++ ['\n']) = some line := by simp [stripSuffix]
  rw [withoutEnding, hn]
  simp only [stripSuffix]
  split
  · next hr =>
    obtain ⟨front, rfl⟩ := List.getLast?_eq_some_iff.mp hr
    rw [Option.getD_some, List.dropLast_concat, trim_concat (by decide)]
  · rfl

/-- The lines of lines that were ended one by one, up to trimming. -/
theorem map_trim_lines {ls : List Text} (h : ∀ line ∈ ls, '\n' ∉ line) :
    (lines (ls.flatMap (· ++ ['\n']))).map trim = ls.map trim := by
  induction ls with
  | nil => rfl
  | cons line ls ih =>
    have hrest := ih fun line hm => h line (List.mem_cons_of_mem _ hm)
    rw [lines] at hrest
    rw [List.flatMap_cons, List.append_assoc, lines, List.singleton_append,
      splitInclusive_line (h line List.mem_cons_self), List.map_cons, List.map_cons, trim_withoutEnding, hrest,
      List.map_cons]

/-! ## Ignoring case -/

theorem eqIgnoreAsciiCase_iff {a b : Text} : eqIgnoreAsciiCase a b = true ↔ a.toAsciiLowercase = b.toAsciiLowercase :=
  beq_iff_eq

end Text
