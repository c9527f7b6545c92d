/-
Edits of a configuration that change nothing, and files written out and read
back.

An edit works on the lines of a text. Each of them leaves the sections and the
entries of the file the same up to order, but for keys nobody asks for; by
`ConfigLayout` the text then still parses, to a file in which every known key
has the value it had.
-/
import Snell.ConfigLayout

namespace Snell

open Text

/-! ## Lines in parts -/

def Line.isHeader : Line → Bool
  | .header _ => true
  | _ => false

theorem headers_append (ls ls' : List Line) : headers (ls ++ ls') = headers ls ++ headers ls' := List.filterMap_append

theorem entriesOf_append (current : Option Text) (ls ls' : List Line) :
    entriesOf current (ls ++ ls') = entriesOf current ls ++ entriesOf (after current ls) ls' := by
  induction ls generalizing current with
  | nil => rfl
  | cons line ls ih =>
    cases line with
    | pair key value => simp only [List.cons_append, entriesOf, after, ih, List.append_assoc]
    | _ => exact ih _

theorem proper_append (current : Option Text) (ls ls' : List Line) :
    Proper current (ls ++ ls') ↔ Proper current ls ∧ Proper (after current ls) ls' := by
  induction ls generalizing current with
  | nil => exact (and_iff_right trivial).symm
  | cons line ls ih =>
    cases line with
    | bad e => exact ⟨fun h => h.elim, fun h => h.1.elim⟩
    | pair key value =>
      simp only [List.cons_append, Proper, after, ih, and_assoc]
    | _ => exact ih _

/-! ### Without a header -/

/-- The entry a line is under a header. -/
def Line.entry (current : Option Text) : Line → Option Entry
  | .pair key value => current.map fun name => ⟨name, key, value⟩
  | _ => none

/-- The line is no mistake under a header, or under none. -/
def Line.Allowed (current : Option Text) : Line → Prop
  | .pair _ _ => current.isSome = true
  | .bad _ => False
  | _ => True

section Headerless

variable {ls : List Line} (h : ∀ line ∈ ls, line.isHeader = false)

include h

theorem headers_headerless : headers ls = [] := by
  refine List.filterMap_eq_nil_iff.mpr fun line hm => ?_
  have := h line hm
  cases line with
  | header name => cases this
  | _ => rfl

theorem after_headerless (current : Option Text) : after current ls = current := by
  induction ls with
  | nil => rfl
  | cons line ls ih =>
    have hline := h line List.mem_cons_self
    have hrest := ih fun line hm => h line (List.mem_cons_of_mem _ hm)
    cases line with
    | header name => cases hline
    | _ => exact hrest

theorem entriesOf_headerless (current : Option Text) : entriesOf current ls = ls.filterMap (Line.entry current) := by
  induction ls with
  | nil => rfl
  | cons line ls ih =>
    have hline := h line List.mem_cons_self
    have hrest := ih fun line hm => h line (List.mem_cons_of_mem _ hm)
    cases line with
    | header name => cases hline
    | pair key value =>
      cases current with
      | none =>
        rw [List.filterMap_cons_none rfl]
        exact hrest
      | some name =>
        have hentry : Line.entry (some name) (.pair key value) = some ⟨name, key, value⟩ := rfl
        rw [List.filterMap_cons_some hentry]
        exact congrArg _ hrest
    | _ => exact hrest

theorem proper_headerless (current : Option Text) : Proper current ls ↔ ∀ line ∈ ls, line.Allowed current := by
  induction ls with
  | nil => exact ⟨fun _ _ => nofun, fun _ => trivial⟩
  | cons line ls ih =>
    have hline := h line List.mem_cons_self
    have hrest := ih fun line hm => h line (List.mem_cons_of_mem _ hm)
    rw [List.forall_mem_cons, ← hrest]
    cases line with
    | header name => cases hline
    | pair key value => exact Iff.rfl
    | blank => exact (and_iff_right trivial).symm
    | bad e => exact ⟨fun h => h.elim, fun h => h.1.elim⟩

end Headerless

/-! ### Sections -/

/-- A header and the lines under it. -/
def IsSection (ls : List Line) : Prop := ∃ name body, ls = .header name :: body ∧ ∀ line ∈ body, line.isHeader = false

theorem IsSection.entriesOf_eq {ls : List Line} (h : IsSection ls) (current : Option Text) :
    entriesOf current ls = entriesOf none ls := by
  obtain ⟨name, body, rfl, -⟩ := h
  rfl

theorem IsSection.proper_iff {ls : List Line} (h : IsSection ls) (current : Option Text) :
    Proper current ls ↔ Proper none ls := by
  obtain ⟨name, body, rfl, -⟩ := h
  exact Iff.rfl

section Sections

variable {sections : List (List Line)} (h : ∀ s ∈ sections, IsSection s)

include h

theorem entriesOf_sections (current : Option Text) :
    entriesOf current sections.flatten = sections.flatMap (entriesOf none) := by
  induction sections generalizing current with
  | nil => rfl
  | cons s sections ih =>
    rw [List.flatten_cons, entriesOf_append, (h s List.mem_cons_self).entriesOf_eq, List.flatMap_cons,
      ih fun s hm => h s (List.mem_cons_of_mem _ hm)]

theorem proper_sections (current : Option Text) : Proper current sections.flatten ↔ ∀ s ∈ sections, Proper none s := by
  induction sections generalizing current with
  | nil => exact ⟨fun _ _ => nofun, fun _ => trivial⟩
  | cons s sections ih =>
    rw [List.flatten_cons, proper_append, (h s List.mem_cons_self).proper_iff, List.forall_mem_cons,
      ih fun s hm => h s (List.mem_cons_of_mem _ hm)]

end Sections

/-! ## Edits -/

/-- An edit of the lines of a text that changes nothing the program reads: the
lines under a header change places, whole sections do, a blank line or a
comment comes in, or a pair with a key that is new to its section and that the
program does not know. -/
inductive Edit : List Text → List Text → Prop
  | permuteKeys {above keys keys' below} : (∀ line ∈ keys, (classify line).isHeader = false) → keys.Perm keys' →
      Edit (above ++ (keys ++ below)) (above ++ (keys' ++ below))
  | permuteSections {above sections sections'} : (∀ line ∈ above, (classify line).isHeader = false) →
      (∀ s ∈ sections, IsSection (s.map classify)) → List.Perm sections sections' →
      Edit (above ++ sections.flatten) (above ++ sections'.flatten)
  | insertBlank {above below line} : classify line = .blank → Edit (above ++ below) (above ++ line :: below)
  | addUnknown {above below line name key value} : classify line = .pair key value →
      after none (above.map classify) = some name → ¬ IniFile.Known key →
      (∀ e ∈ entriesOf none ((above ++ below).map classify), eqIgnoreAsciiCase e.name name = true →
        eqIgnoreAsciiCase e.key key = false) →
      Edit (above ++ below) (above ++ line :: below)

namespace IniFile

/-- Lines with the same headers and entries up to order, and more entries that
are new and unknown, make a file that agrees. -/
theorem parse_rearranged {raw raw' : Text} {file : IniFile} (hraw : parse raw = .ok file) (extra : List Entry)
    (hproper : Proper none ((lines raw').map classify))
    (hheaders : (headers ((lines raw').map classify)).Perm (headers ((lines raw).map classify)))
    (hentries : (entriesOf none ((lines raw').map classify)).Perm (extra ++ entriesOf none ((lines raw).map classify)))
    (hunknown : ∀ e ∈ extra, ¬ Known e.key)
    (hnew : ((extra ++ entriesOf none ((lines raw).map classify)).map Entry.id).Nodup) :
    ∃ file', parse raw' = .ok file' ∧ Agrees file file' := by
  obtain ⟨hp, hd, hfile⟩ := parse_iff.mp hraw
  obtain ⟨hnames, hents⟩ := foldl_push ⟨[]⟩ hp
  obtain ⟨hnames', hents'⟩ := foldl_push ⟨[]⟩ hproper
  rw [← hfile] at hnames hents
  change file.names = headers _ at hnames
  change file.entries = entriesOf none _ at hents
  generalize hfile' : ((lines raw').map classify).foldl push ⟨[]⟩ = file' at hnames' hents'
  change file'.names = headers _ at hnames'
  change file'.entries = entriesOf none _ at hents'
  rw [← hnames, ← hnames'] at hheaders
  rw [← hents, ← hents'] at hentries
  rw [← hents] at hnew
  have hd' : file'.Distinct := ⟨(hheaders.map _).nodup_iff.mpr hd.names, (hentries.map _).nodup_iff.mpr hnew⟩
  refine ⟨file', parse_iff.mpr ⟨hproper, hd', hfile'.symm⟩, fun name => hheaders.mem_iff, fun e he => ?_⟩
  rw [hentries.mem_iff, List.mem_append]
  exact or_iff_right fun hm => hunknown e hm he

/-- **An edit keeps the text a configuration**, and one that agrees. -/
theorem parse_edited {raw raw' : Text} {file : IniFile} (hraw : parse raw = .ok file) (h : Edit (lines raw) (lines raw')) :
    ∃ file', parse raw' = .ok file' ∧ Agrees file file' := by
  obtain ⟨hp, hd, hfile⟩ := parse_iff.mp hraw
  obtain ⟨-, hents⟩ := foldl_push ⟨[]⟩ hp
  have hnodup := hd.entries
  rw [hfile, hents] at hnodup
  change ((entriesOf none ((lines raw).map classify)).map Entry.id).Nodup at hnodup
  -- nothing is new but for `addUnknown`
  have hsame : Proper none ((lines raw').map classify) →
      (headers ((lines raw').map classify)).Perm (headers ((lines raw).map classify)) →
      (entriesOf none ((lines raw').map classify)).Perm (entriesOf none ((lines raw).map classify)) →
      ∃ file', parse raw' = .ok file' ∧ Agrees file file' :=
    fun hproper hheaders hentries => parse_rearranged hraw [] hproper hheaders hentries (fun _ => nofun) hnodup
  generalize hlines : lines raw = ls at h hp hsame hnodup
  generalize hlines' : lines raw' = ls' at h hsame
  cases h with
  | @permuteKeys above keys keys' below hkeys hperm =>
    have hperm' := hperm.map classify
    have hk : ∀ line ∈ keys.map classify, line.isHeader = false := by
      intro line hm
      obtain ⟨text, ht, rfl⟩ := List.mem_map.mp hm
      exact hkeys text ht
    have hk' : ∀ line ∈ keys'.map classify, line.isHeader = false := fun line hm => hk line (hperm'.mem_iff.mpr hm)
    simp only [List.map_append, proper_append, headers_append, entriesOf_append, after_headerless hk, after_headerless hk',
      headers_headerless hk, headers_headerless hk', entriesOf_headerless hk, entriesOf_headerless hk',
      proper_headerless hk, proper_headerless hk'] at hp hsame
    refine hsame ⟨hp.1, fun line hm => hp.2.1 line (hperm'.mem_iff.mpr hm), hp.2.2⟩ (.refl _) ?_
    exact ((hperm'.symm.filterMap _).append_right _).append_left _
  | @permuteSections above sections sections' habove hsections hperm =>
    have ha : ∀ line ∈ above.map classify, line.isHeader = false := by
      intro line hm
      obtain ⟨text, ht, rfl⟩ := List.mem_map.mp hm
      exact habove text ht
    have hs : ∀ s ∈ sections.map (List.map classify), IsSection s := by
      intro s hm
      obtain ⟨text, ht, rfl⟩ := List.mem_map.mp hm
      exact hsections text ht
    have hperm' := hperm.map (List.map classify)
    have hs' : ∀ s ∈ sections'.map (List.map classify), IsSection s := fun s hm => hs s (hperm'.mem_iff.mpr hm)
    simp only [List.map_append, List.map_flatten, proper_append, headers_append, entriesOf_append, after_headerless ha,
      proper_sections hs, proper_sections hs', entriesOf_sections hs, entriesOf_sections hs'] at hp hsame
    refine hsame ⟨hp.1, fun s hm => hp.2 s (hperm'.mem_iff.mpr hm)⟩ ?_ ?_
    · exact (hperm'.symm.flatten.filterMap _).append_left _
    · exact (hperm'.symm.flatMap_right _).append_left _
  | @insertBlank above below line hline =>
    simp only [List.map_append, List.map_cons, hline, proper_append, headers_append, entriesOf_append] at hp hsame
    exact hsame hp (.refl _) (.refl _)
  | @addUnknown above below line name key value hline hname hunknown hfresh =>
    have hids : ((Entry.mk name key value :: entriesOf none ((above ++ below).map classify)).map Entry.id).Nodup := by
      rw [List.map_cons, List.nodup_cons]
      refine ⟨fun hm => ?_, hnodup⟩
      obtain ⟨e, he, hid⟩ := List.mem_map.mp hm
      obtain ⟨hn, hk⟩ := Prod.mk.inj hid
      have := hfresh e he (eqIgnoreAsciiCase_iff.mpr hn)
      rw [eqIgnoreAsciiCase_iff.mpr hk] at this
      cases this
    refine parse_rearranged hraw [⟨name, key, value⟩] ?_ ?_ ?_
      (fun e hm => by rw [List.mem_singleton.mp hm]; exact hunknown)
      (by rw [hlines]; exact hids)
    · rw [hlines']
      simp only [List.map_append, List.map_cons, hline, proper_append, hname, Proper, Option.isSome_some, true_and] at hp ⊢
      exact hp
    · rw [hlines, hlines']
      simp only [List.map_append, List.map_cons, hline, headers_append]
      exact .refl _
    · rw [hlines, hlines']
      simp only [List.map_append, List.map_cons, hline, entriesOf_append, hname, entriesOf, Option.map_some,
        Option.toList_some]
      exact List.perm_middle

/-! ## Nothing comes twice -/

/-- No two sections, and no two keys of a section, are equal ignoring the case
of ASCII letters. -/
structure NoDuplicates (file : IniFile) : Prop where
  names : file.sections.Pairwise fun s s' => eqIgnoreAsciiCase s.1 s'.1 = false
  keys : ∀ s ∈ file.sections, s.2.pairs.Pairwise fun pair pair' => eqIgnoreAsciiCase pair.1 pair'.1 = false

theorem pairwise_iff_nodup {α : Type} {l : List α} {f : α → Text} :
    (l.Pairwise fun a b => eqIgnoreAsciiCase (f a) (f b) = false) ↔ (l.map fun a => toAsciiLowercase (f a)).Nodup := by
  rw [List.Nodup, List.pairwise_map]
  have hpair : ∀ a b, eqIgnoreAsciiCase (f a) (f b) = false ↔ toAsciiLowercase (f a) ≠ toAsciiLowercase (f b) := by
    intro a b
    rw [← Bool.not_eq_true, eqIgnoreAsciiCase_iff]
  simp only [hpair]

theorem distinct_iff {file : IniFile} : file.Distinct ↔ file.NoDuplicates := by
  constructor
  · intro hd
    have hn := hd.names
    rw [IniFile.names, List.map_map] at hn
    exact ⟨pairwise_iff_nodup.mpr hn, fun s hs => pairwise_iff_nodup.mpr (hd.keys hs)⟩
  · rintro ⟨hnames, hkeys⟩
    refine ⟨?_, ?_⟩
    · rw [IniFile.names, List.map_map]
      exact pairwise_iff_nodup.mp hnames
    · rw [entries, List.map_flatMap, List.nodup_flatMap]
      refine ⟨fun s hs => ?_, hnames.imp ?_⟩
      · have hn := pairwise_iff_nodup.mp (hkeys s hs)
        have := hn.map (f := fun key => (toAsciiLowercase s.1, key)) fun _ _ h => (Prod.mk.inj h).2
        rw [List.map_map] at this ⊢
        exact this
      · -- entries of different sections differ in the section
        intro s s' hne
        refine List.disjoint_left.mpr fun x hx hx' => ?_
        obtain ⟨e, he, rfl⟩ := List.mem_map.mp hx
        obtain ⟨pair, -, rfl⟩ := List.mem_map.mp he
        obtain ⟨e', he', hid⟩ := List.mem_map.mp hx'
        obtain ⟨pair', -, rfl⟩ := List.mem_map.mp he'
        rw [eqIgnoreAsciiCase_iff.mpr (Prod.mk.inj hid).1.symm] at hne
        cases hne

/-! ## Writing a file out -/

def renderPair (pair : Text × Text) : Text := pair.1 ++ (" = ".toList ++ pair.2)

def renderSection (s : Text × Section) : List Text := ('[' :: (s.1 ++ [']'])) :: s.2.pairs.map renderPair

/-- The file as `[section]` and `key = value` lines. -/
def render (file : IniFile) : Text := (file.sections.flatMap renderSection).flatMap (· ++ ['\n'])

/-- A file whose lines can be told apart again. -/
structure Renderable (file : IniFile) : Prop extends NoDuplicates file where
  name : ∀ s ∈ file.sections, s.1 ≠ [] ∧ trim s.1 = s.1 ∧ '\n' ∉ s.1
  key : ∀ s ∈ file.sections, ∀ pair ∈ s.2.pairs, pair.1 ≠ [] ∧ trim pair.1 = pair.1 ∧ '\n' ∉ pair.1 ∧ '=' ∉ pair.1 ∧
    pair.1.head? ≠ some '#' ∧ pair.1.head? ≠ some ';' ∧ pair.1.head? ≠ some '['
  value : ∀ s ∈ file.sections, ∀ pair ∈ s.2.pairs, trim pair.2 = pair.2 ∧ '\n' ∉ pair.2

theorem classify_header {name : Text} (hne : name ≠ []) (htrim : trim name = name) :
    classify ('[' :: (name ++ [']'])) = .header name := by
  have hline : trim ('[' :: (name ++ [']'])) = '[' :: (name ++ [']']) :=
    trim_eq (c := '[') (d := ']') (x := '[' :: name) (y := []) (by decide) (by decide) rfl ⟨_, rfl⟩
  rw [classify, hline, classifyTrimmed, if_neg (by simp)]
  simp [stripPrefix, stripSuffix, htrim, hne]

/-- What is left of the value when the line was trimmed. -/
theorem trim_value {value : Text} (h : trim value = value) : trim ((' ' :: value).rdropWhile isWhitespace) = value := by
  by_cases hne : value = []
  · subst hne; decide
  · obtain ⟨⟨c, rest, hc, hcw⟩, front, d, hd, hdw⟩ := trimmed_ends h hne
    have hr : (' ' :: value).rdropWhile isWhitespace = ' ' :: value := by
      rw [hd, ← List.cons_append, rdropWhile_append_cons hdw, List.rdropWhile_nil]
    rw [hr, trim, List.dropWhile_cons_of_pos (by decide)]
    exact h

theorem classify_pair {key value : Text} (hne : key ≠ []) (hkey : trim key = key) (heq : '=' ∉ key)
    (hhead : key.head? ≠ some '#' ∧ key.head? ≠ some ';' ∧ key.head? ≠ some '[') (hvalue : trim value = value) :
    classify (renderPair (key, value)) = .pair key value := by
  obtain ⟨⟨c, rest, rfl, hc⟩, -⟩ := trimmed_ends hkey hne
  obtain ⟨h₁, h₂, h₃⟩ : c ≠ '#' ∧ c ≠ ';' ∧ c ≠ '[' := by simpa using hhead
  have hline : trim (renderPair (c :: rest, value)) =
      (c :: rest) ++ ' ' :: '=' :: (' ' :: value).rdropWhile isWhitespace :=
    (trim_eq (d := '=') (x := (c :: rest) ++ [' ']) (y := ' ' :: value) hc (by decide) (by simp)
      ⟨_, rfl⟩).trans (by simp)
  have hsplit : splitOnce '=' ((c :: rest) ++ ' ' :: '=' :: (' ' :: value).rdropWhile isWhitespace) =
      some ((c :: rest) ++ [' '], (' ' :: value).rdropWhile isWhitespace) := by
    have hfront : ∀ d ∈ (c :: rest) ++ [' '], decide (d ≠ '=') = true := by
      intro d hd
      rcases List.mem_append.mp hd with hd | hd
      · exact decide_eq_true fun h => heq (h ▸ hd)
      · rw [List.mem_singleton.mp hd]; decide
    have hassoc : (c :: rest) ++ ' ' :: '=' :: (' ' :: value).rdropWhile isWhitespace =
        ((c :: rest) ++ [' ']) ++ '=' :: (' ' :: value).rdropWhile isWhitespace := by simp
    rw [splitOnce, hassoc, if_pos (by simp), List.takeWhile_append_of_pos hfront, List.dropWhile_append_of_pos hfront,
      List.takeWhile_cons_of_neg (by simp), List.dropWhile_cons_of_neg (by simp), List.append_nil, List.tail_cons]
  have hnone : stripPrefix '[' ((c :: rest) ++ ' ' :: '=' :: (' ' :: value).rdropWhile isWhitespace) = none :=
    if_neg h₃
  rw [classify, hline, classifyTrimmed, if_neg (by simp [h₁, h₂])]
  simp only [hnone, hsplit, trim_concat (show isWhitespace ' ' = true by decide), hkey, trim_value hvalue]
  rw [if_neg hne]

/-- What the lines of a written file are. -/
def linesOf (file : IniFile) : List Line :=
  file.sections.flatMap fun s => .header s.1 :: s.2.pairs.map fun pair => .pair pair.1 pair.2

theorem Renderable.classify_lines {file : IniFile} (h : file.Renderable) :
    (lines file.render).map classify = file.linesOf := by
  have hnl : ∀ line ∈ file.sections.flatMap renderSection, '\n' ∉ line := by
    intro line hm
    obtain ⟨s, hs, hm⟩ := List.mem_flatMap.mp hm
    rcases List.mem_cons.mp hm with rfl | hm
    · have := (h.name s hs).2.2
      simp [this]
    · obtain ⟨pair, hpair, rfl⟩ := List.mem_map.mp hm
      have h₁ := (h.key s hs pair hpair).2.2.1
      have h₂ := (h.value s hs pair hpair).2
      simp [renderPair, h₁, h₂]
  have hmap : (lines file.render).map classify = (file.sections.flatMap renderSection).map classify := by
    have := congrArg (List.map classifyTrimmed) (map_trim_lines hnl)
    rwa [List.map_map, List.map_map] at this
  rw [hmap, List.map_flatMap, linesOf]
  refine List.flatMap_congr fun s hs => ?_
  rw [renderSection, List.map_cons, classify_header (h.name s hs).1 (h.name s hs).2.1, List.map_map]
  refine congrArg _ (List.map_congr_left fun pair hpair => ?_)
  obtain ⟨hne, htrim, -, heq, hhead⟩ := h.key s hs pair hpair
  exact classify_pair hne htrim heq hhead (h.value s hs pair hpair).1

theorem foldl_push_pairs (front : List (Text × Section)) (name : Text) (pairs more : List (Text × Text)) :
    (more.map fun pair => Line.pair pair.1 pair.2).foldl push ⟨front ++ [(name, ⟨pairs⟩)]⟩ =
      ⟨front ++ [(name, ⟨pairs ++ more⟩)]⟩ := by
  induction more generalizing pairs with
  | nil => simp
  | cons pair more ih =>
    have hpush : push ⟨front ++ [(name, ⟨pairs⟩)]⟩ (.pair pair.1 pair.2) = ⟨front ++ [(name, ⟨pairs ++ [pair]⟩)]⟩ := by
      simp [push]
    rw [List.map_cons, List.foldl_cons, hpush, ih, List.append_assoc, List.singleton_append]

theorem foldl_push_linesOf (front sections : List (Text × Section)) :
    (linesOf ⟨sections⟩).foldl push ⟨front⟩ = ⟨front ++ sections⟩ := by
  induction sections generalizing front with
  | nil => simp [linesOf]
  | cons s sections ih =>
    have hs := foldl_push_pairs front s.1 [] s.2.pairs
    rw [List.nil_append] at hs
    have hrest := ih (front ++ [s])
    rw [linesOf] at hrest ⊢
    rw [List.flatMap_cons, List.foldl_append, List.foldl_cons, push, hs]
    simpa using hrest

theorem proper_linesOf (current : Option Text) (sections : List (Text × Section)) :
    Proper current (linesOf ⟨sections⟩) := by
  induction sections generalizing current with
  | nil => trivial
  | cons s sections ih =>
    rw [linesOf, List.flatMap_cons, proper_append]
    refine ⟨?_, ih _⟩
    have hpairs : ∀ line ∈ s.2.pairs.map fun pair => Line.pair pair.1 pair.2, line.isHeader = false ∧
        line.Allowed (some s.1) := by
      intro line hm
      obtain ⟨pair, -, rfl⟩ := List.mem_map.mp hm
      exact ⟨rfl, rfl⟩
    exact (proper_headerless (fun line hm => (hpairs line hm).1) (some s.1)).mpr fun line hm => (hpairs line hm).2

theorem parse_render {file : IniFile} (h : file.Renderable) : parse file.render = .ok file := by
  rw [parse_iff, h.classify_lines]
  exact ⟨proper_linesOf none file.sections, distinct_iff.mpr h.toNoDuplicates, (foldl_push_linesOf [] file.sections).symm⟩

end IniFile

/-! ## Layout -/

/-- One edit after another. -/
def Relaid : Text → Text → Prop := Relation.ReflTransGen fun raw raw' => Edit (lines raw) (lines raw')

theorem Relaid.agrees {raw raw' : Text} {file : IniFile} (h : Relaid raw raw') (hraw : IniFile.parse raw = .ok file)
    (std : FromStr) :
    (∃ file', IniFile.parse raw' = .ok file') ∧ ClientConfig.parse std raw' = ClientConfig.parse std raw ∧
      ServerConfig.parse std raw' = ServerConfig.parse std raw := by
  induction h with
  | refl => exact ⟨⟨file, hraw⟩, rfl, rfl⟩
  | tail _ hedit ih =>
    obtain ⟨⟨file', hraw'⟩, hclient, hserver⟩ := ih
    obtain ⟨file'', hraw'', hagrees⟩ := IniFile.parse_edited hraw' hedit
    obtain ⟨hclient', hserver'⟩ := hagrees.configs hraw' hraw'' std
    exact ⟨⟨file'', hraw''⟩, hclient'.trans hclient, hserver'.trans hserver⟩

/-- **Configuration does not depend on layout**, and a file written out is read
back. -/
theorem configuration_independent_of_layout (std : FromStr) :
    (∀ raw file, IniFile.parse raw = .ok file → file.NoDuplicates ∧
      ∀ raw', Relaid raw raw' → ClientConfig.parse std raw' = ClientConfig.parse std raw ∧
        ServerConfig.parse std raw' = ServerConfig.parse std raw) ∧
      ∀ file : IniFile, file.Renderable → IniFile.parse file.render = .ok file := by
  refine ⟨fun raw file hraw => ⟨?_, fun raw' h => (h.agrees hraw std).2⟩, fun file h => IniFile.parse_render h⟩
  exact IniFile.distinct_iff.mp (IniFile.parse_iff.mp hraw).2.1

/-- Two keys of a client change places; and a value with everything in it that
starts another kind of line. -/
theorem configuration_independent_of_layout_swapped :
    let addresses : List (Text × SocketAddr) := [("127.0.0.1:1080".toList, .v4 ⟨[127, 0, 0, 1], rfl⟩ 1080),
      ("192.0.2.7:8388".toList, .v4 ⟨[192, 0, 2, 7], rfl⟩ 8388)]
    let std : FromStr := ⟨fun text => addresses.lookup text, fun _ => none⟩
    let rest : Text := "server = 192.0.2.7:8388\npsk = 0123456789abcdef\n".toList
    let raw : Text := "[snell-client]\nlisten = 127.0.0.1:1080\nversion = V4\n".toList ++ rest
    let raw' : Text := "[snell-client]\nversion = V4\nlisten = 127.0.0.1:1080\n".toList ++ rest
    let file : IniFile := ⟨[("a]".toList, ⟨[("k".toList, "[#;=]".toList), ("l".toList, [])]⟩)]⟩
    (IniFile.parse raw).isOk = true ∧ Relaid raw raw' ∧ ClientConfig.parse std raw' = ClientConfig.parse std raw ∧
      file.Renderable ∧ IniFile.parse file.render = .ok file := by
  intro addresses std rest raw raw' file
  have hraw : ∃ file, IniFile.parse raw = .ok file := ⟨_, rfl⟩
  obtain ⟨parsed, hparsed⟩ := hraw
  have hrelaid : Relaid raw raw' := by
    refine .single ?_
    have hlines : lines raw = ["[snell-client]".toList] ++ (["listen = 127.0.0.1:1080".toList, "version = V4".toList] ++
        ["server = 192.0.2.7:8388".toList, "psk = 0123456789abcdef".toList]) := by decide
    have hlines' : lines raw' = ["[snell-client]".toList] ++ (["version = V4".toList, "listen = 127.0.0.1:1080".toList] ++
        ["server = 192.0.2.7:8388".toList, "psk = 0123456789abcdef".toList]) := by decide
    rw [hlines, hlines']
    exact .permuteKeys (by decide) (List.Perm.swap _ _ _)
  have hrender : file.Renderable := ⟨⟨by decide, by decide⟩, by decide, by decide, by decide⟩
  obtain ⟨hlayout, hround⟩ := configuration_independent_of_layout std
  exact ⟨by rw [hparsed]; rfl, hrelaid, ((hlayout raw parsed hparsed).2 raw' hrelaid).1, hrender, hround file hrender⟩

end Snell
