/-
Configuration does not depend on layout.

A line of INI text is blank, a header, a pair or a mistake (`classify`), and
parsing succeeds exactly if no line is a mistake, no pair stands before the
first header, and neither a section name nor a key of a section comes twice
(`parse_iff`). That is a condition on what is in the file, not on its order,
and so is what a lookup finds, which takes the first match of the only one
there is (`lookup_iff`).
-/
import Mathlib.Logic.Relation
import Snell.Config

namespace Snell

open Text

/-! ## Lines -/

inductive Line where
  | blank
  | header (name : Text)
  | pair (key value : Text)
  | bad (e : ConfigError)
  deriving DecidableEq

/-- What a trimmed line is. -/
def classifyTrimmed (line : Text) : Line :=
  if line = [] ∨ line.head? = some '#' ∨ line.head? = some ';' then .blank
  else
    match stripPrefix '[' line with
    | some rest =>
      match stripSuffix ']' rest with
      | none => .bad (.ini "unclosed section header")
      | some name => if trim name = [] then .bad (.ini "empty section name") else .header (trim name)
    | none =>
      match splitOnce '=' line with
      | none => .bad (.ini "expected key = value")
      | some (key, value) => if trim key = [] then .bad (.ini "empty key") else .pair (trim key) (trim value)

def classify (line : Text) : Line := classifyTrimmed (trim line)

namespace IniFile

/-- The file with one more line, if it fits. -/
def push (file : IniFile) : Line → IniFile
  | .header name => ⟨file.sections ++ [(name, ⟨[]⟩)]⟩
  | .pair key value =>
    match file.sections.getLast? with
    | none => file
    | some (name, s) => ⟨file.sections.dropLast ++ [(name, ⟨s.pairs ++ [(key, value)]⟩)]⟩
  | .blank | .bad _ => file

/-- The line is no mistake where it stands. -/
inductive Fits (file : IniFile) : Line → Prop
  | blank : Fits file .blank
  | header {name} : file.sectionNamed name = none → Fits file (.header name)
  | pair {key value name s} : file.sections.getLast? = some (name, s) → s.get key = none → Fits file (.pair key value)

/-- Where the parser refuses a line, no line fits. -/
theorem refused_iff {file file' : IniFile} {e e' : ConfigError} {P : Prop} :
    (Except.error e : Except ConfigError IniFile) = .ok file' ↔ Fits file (.bad e') ∧ P := by
  constructor
  · intro h
    cases h
  · rintro ⟨h, -⟩
    cases h

theorem parseLine_iff {file file' : IniFile} {line : Text} :
    file.parseLine line = .ok file' ↔ Fits file (classify line) ∧ file' = file.push (classify line) := by
  unfold parseLine classify classifyTrimmed
  generalize trim line = line
  simp only
  by_cases hblank : line = [] ∨ line.head? = some '#' ∨ line.head? = some ';'
  · simp only [if_pos hblank, push, Except.ok.injEq]
    exact ⟨fun h => ⟨.blank, h.symm⟩, fun h => h.2.symm⟩
  simp only [if_neg hblank]
  cases stripPrefix '[' line with
  | some rest =>
    simp only
    cases stripSuffix ']' rest with
    | none => exact refused_iff
    | some name =>
      simp only
      by_cases hname : trim name = []
      · simp only [if_pos hname]
        exact refused_iff
      simp only [if_neg hname, push]
      by_cases hdup : (file.sectionNamed (trim name)).isSome = true
      · rw [if_pos hdup]
        refine ⟨fun h => (by cases h), fun h => ?_⟩
        cases h.1 with
        | header hnone => rw [hnone] at hdup; cases hdup
      · rw [if_neg hdup, Except.ok.injEq]
        exact ⟨fun h => ⟨.header (by simpa using hdup), h.symm⟩, fun h => h.2.symm⟩
  | none =>
    simp only
    cases splitOnce '=' line with
    | none => exact refused_iff
    | some kv =>
      obtain ⟨key, value⟩ := kv
      simp only
      by_cases hkey : trim key = []
      · simp only [if_pos hkey]
        exact refused_iff
      simp only [if_neg hkey, push]
      cases hlast : file.sections.getLast? with
      | none =>
        refine ⟨fun h => (by cases h), fun h => ?_⟩
        cases h.1 with
        | pair hsome _ => rw [hlast] at hsome; cases hsome
      | some ns =>
        obtain ⟨name, s⟩ := ns
        simp only
        by_cases hdup : (s.get (trim key)).isSome = true
        · rw [if_pos hdup]
          refine ⟨fun h => (by cases h), fun h => ?_⟩
          cases h.1 with
          | pair hsome hnone =>
            cases hlast.symm.trans hsome
            rw [hnone] at hdup
            cases hdup
        · rw [if_neg hdup, Except.ok.injEq]
          exact ⟨fun h => ⟨.pair hlast (by simpa using hdup), h.symm⟩, fun h => h.2.symm⟩

/-- Every line fits where it stands. -/
def Admits : IniFile → List Line → Prop
  | _, [] => True
  | file, line :: ls => Fits file line ∧ Admits (file.push line) ls

theorem foldlM_parseLine {file file' : IniFile} {ls : List Text} :
    ls.foldlM parseLine file = .ok file' ↔
      Admits file (ls.map classify) ∧ file' = (ls.map classify).foldl push file := by
  induction ls generalizing file with
  | nil => exact ⟨fun h => ⟨trivial, (Except.ok.inj h).symm⟩, fun h => congrArg Except.ok h.2.symm⟩
  | cons line ls ih =>
    simp only [List.foldlM_cons, List.map_cons, List.foldl_cons, Admits]
    cases hline : file.parseLine line with
    | error e =>
      refine ⟨nofun, fun h => ?_⟩
      have := parseLine_iff.mpr ⟨h.1.1, rfl⟩
      rw [hline] at this
      cases this
    | ok next =>
      obtain ⟨hfits, rfl⟩ := parseLine_iff.mp hline
      rw [and_assoc, and_iff_right hfits]
      exact ih

end IniFile

/-! ## What is in a file -/

structure Entry where
  name : Text
  key : Text
  value : Text
  deriving DecidableEq

/-- What a lookup compares. -/
def Entry.id (e : Entry) : Text × Text := (toAsciiLowercase e.name, toAsciiLowercase e.key)

namespace IniFile

def names (file : IniFile) : List Text := file.sections.map Prod.fst

def entries (file : IniFile) : List Entry := file.sections.flatMap fun s => s.2.pairs.map fun pair => ⟨s.1, pair.1, pair.2⟩

/-- The section that pairs are added to. -/
def current (file : IniFile) : Option Text := file.sections.getLast?.map Prod.fst

/-- Neither a section nor a key of a section comes twice. -/
structure Distinct (file : IniFile) : Prop where
  names : (file.names.map toAsciiLowercase).Nodup
  entries : (file.entries.map Entry.id).Nodup

theorem names_header (file : IniFile) (name : Text) : (file.push (.header name)).names = file.names ++ [name] := by
  simp [push, names]

theorem entries_header (file : IniFile) (name : Text) : (file.push (.header name)).entries = file.entries := by
  simp [push, entries]

theorem current_header (file : IniFile) (name : Text) : (file.push (.header name)).current = some name := by
  simp [push, current]

/-- The last section, taken apart. -/
theorem sections_last {file : IniFile} {name : Text} (h : file.current = some name) :
    ∃ front s, file.sections = front ++ [(name, s)] := by
  obtain ⟨⟨name', s⟩, hlast, rfl⟩ := Option.map_eq_some_iff.mp h
  obtain ⟨front, hfront⟩ := List.getLast?_eq_some_iff.mp hlast
  exact ⟨front, s, hfront⟩

theorem push_pair {file : IniFile} {name : Text} (key value : Text) (h : file.current = some name) :
    (file.push (.pair key value)).names = file.names ∧
      (file.push (.pair key value)).entries = file.entries ++ [⟨name, key, value⟩] ∧
      (file.push (.pair key value)).current = some name := by
  obtain ⟨front, s, hsections⟩ := sections_last h
  simp [push, names, entries, current, hsections]

theorem sectionNamed_none {file : IniFile} {name : Text} :
    file.sectionNamed name = none ↔ toAsciiLowercase name ∉ file.names.map toAsciiLowercase := by
  simp only [sectionNamed, Option.map_eq_none_iff, List.find?_eq_none, eqIgnoreAsciiCase_iff, names, List.map_map,
    List.mem_map, Function.comp_apply, not_exists, not_and]

theorem get_none {s : Section} {key : Text} :
    s.get key = none ↔ toAsciiLowercase key ∉ s.pairs.map fun pair => toAsciiLowercase pair.1 := by
  simp only [Section.get, Option.map_eq_none_iff, List.find?_eq_none, eqIgnoreAsciiCase_iff, List.mem_map, not_exists,
    not_and]

theorem mem_entries_id {file : IniFile} {x : Text × Text} :
    x ∈ file.entries.map Entry.id ↔
      ∃ s ∈ file.sections, ∃ pair ∈ s.2.pairs, (toAsciiLowercase s.1, toAsciiLowercase pair.1) = x := by
  simp only [entries, List.map_flatMap, List.mem_flatMap, List.map_map, List.mem_map, Function.comp_apply, Entry.id]

/-- With distinct names, an entry of a section is one of that section's pairs. -/
theorem Distinct.section_eq {file : IniFile} (hd : file.Distinct) {s s' : Text × Section} (hs : s ∈ file.sections)
    (hs' : s' ∈ file.sections) (h : toAsciiLowercase s.1 = toAsciiLowercase s'.1) : s = s' := by
  have hn := hd.names
  rw [IniFile.names, List.map_map] at hn
  exact List.inj_on_of_nodup_map hn hs hs' h

/-- In the current section, `get` tells whether the entry is new. -/
theorem Distinct.fits_pair {file : IniFile} (hd : file.Distinct) {name key value : Text} (h : file.current = some name) :
    Fits file (.pair key value) ↔ (Entry.mk name key value).id ∉ file.entries.map Entry.id := by
  obtain ⟨front, s, hsections⟩ := sections_last h
  have hlast : file.sections.getLast? = some (name, s) := by simp [hsections]
  have hmem : (name, s) ∈ file.sections := by simp [hsections]
  have hfits : Fits file (.pair key value) ↔ s.get key = none := by
    refine ⟨fun hf => ?_, fun hnone => .pair hlast hnone⟩
    cases hf with
    | pair hsome hnone =>
      cases hlast.symm.trans hsome
      exact hnone
  rw [hfits, get_none, not_iff_not, mem_entries_id]
  constructor
  · intro hkey
    obtain ⟨pair, hpair, heq⟩ := List.mem_map.mp hkey
    exact ⟨(name, s), hmem, pair, hpair, Prod.ext rfl heq⟩
  · rintro ⟨s', hs', pair, hpair, heq⟩
    obtain ⟨hname, hkey⟩ := Prod.mk.inj heq
    obtain rfl := hd.section_eq hs' hmem hname
    exact List.mem_map.mpr ⟨pair, hpair, hkey⟩

end IniFile

/-! ## What is in a list of lines -/

/-- The header the lines stand under in the end. -/
def after (current : Option Text) : List Line → Option Text
  | [] => current
  | .header name :: ls => after (some name) ls
  | _ :: ls => after current ls

def headers (ls : List Line) : List Text :=
  ls.filterMap fun
    | .header name => some name
    | _ => none

def entriesOf (current : Option Text) : List Line → List Entry
  | [] => []
  | .header name :: ls => entriesOf (some name) ls
  | .pair key value :: ls => (current.map fun name => Entry.mk name key value).toList ++ entriesOf current ls
  | _ :: ls => entriesOf current ls

/-- No line is a mistake by itself, and no pair is outside a section. -/
def Proper (current : Option Text) : List Line → Prop
  | [] => True
  | .blank :: ls => Proper current ls
  | .header name :: ls => Proper (some name) ls
  | .pair _ _ :: ls => current.isSome = true ∧ Proper current ls
  | .bad _ :: _ => False

namespace IniFile

theorem foldl_push (file : IniFile) {ls : List Line} (h : Proper file.current ls) :
    (ls.foldl push file).names = file.names ++ headers ls ∧
      (ls.foldl push file).entries = file.entries ++ entriesOf file.current ls := by
  induction ls generalizing file with
  | nil => simp [headers, entriesOf]
  | cons line ls ih =>
    cases line with
    | blank => exact ih file h
    | bad e => exact h.elim
    | header name =>
      have := ih (file.push (.header name)) (by rw [current_header]; exact h)
      rw [names_header, entries_header, current_header] at this
      simpa [headers, entriesOf] using this
    | pair key value =>
      obtain ⟨name, hname⟩ := Option.isSome_iff_exists.mp h.1
      obtain ⟨hnames, hentries, hcurrent⟩ := push_pair key value hname
      have := ih (file.push (.pair key value)) (by rw [hcurrent, ← hname]; exact h.2)
      rw [hnames, hentries, hcurrent] at this
      simpa [headers, entriesOf, hname] using this

theorem distinct_header {file : IniFile} {name : Text} :
    Fits file (.header name) ∧ file.Distinct ↔ (file.push (.header name)).Distinct := by
  have hfits : Fits file (.header name) ↔ file.sectionNamed name = none :=
    ⟨fun h => by cases h with | header hnone => exact hnone, .header⟩
  have hd : ∀ file : IniFile, file.Distinct ↔ (file.names.map toAsciiLowercase).Nodup ∧
      (file.entries.map Entry.id).Nodup :=
    fun _ => ⟨fun h => ⟨h.names, h.entries⟩, fun h => ⟨h.1, h.2⟩⟩
  rw [hfits, sectionNamed_none, hd, hd, names_header, entries_header, List.map_append, List.map_singleton,
    ← List.concat_eq_append, List.nodup_concat, and_assoc]

theorem distinct_pair {file : IniFile} {name key value : Text} (h : file.current = some name) :
    Fits file (.pair key value) ∧ file.Distinct ↔ (file.push (.pair key value)).Distinct := by
  obtain ⟨hnames, hentries, -⟩ := push_pair key value h
  have hnodup : ((file.push (.pair key value)).entries.map Entry.id).Nodup ↔
      (Entry.mk name key value).id ∉ file.entries.map Entry.id ∧ (file.entries.map Entry.id).Nodup := by
    rw [hentries, List.map_append, List.map_singleton, ← List.concat_eq_append, List.nodup_concat]
  constructor
  · rintro ⟨hfits, hd⟩
    exact ⟨by rw [hnames]; exact hd.names, hnodup.mpr ⟨(hd.fits_pair h).mp hfits, hd.entries⟩⟩
  · intro hd
    obtain ⟨hnew, hentries⟩ := hnodup.mp hd.entries
    have hd' : file.Distinct := ⟨by rw [← hnames]; exact hd.names, hentries⟩
    exact ⟨(hd'.fits_pair h).mpr hnew, hd'⟩

/-- Lines fit one after another exactly if nothing comes twice in the end. -/
theorem admits_iff (file : IniFile) (ls : List Line) :
    Admits file ls ∧ file.Distinct ↔ Proper file.current ls ∧ (ls.foldl push file).Distinct := by
  induction ls generalizing file with
  | nil => exact ⟨fun h => h, fun h => h⟩
  | cons line ls ih =>
    simp only [Admits, List.foldl_cons]
    cases line with
    | blank =>
      refine ⟨fun h => (ih file).mp ⟨h.1.2, h.2⟩, fun h => ?_⟩
      obtain ⟨ha, hd⟩ := (ih file).mpr h
      exact ⟨⟨.blank, ha⟩, hd⟩
    | bad e => exact ⟨fun h => (nomatch h.1.1), fun h => h.1.elim⟩
    | header name =>
      rw [and_right_comm, distinct_header, and_comm, ih, current_header]
      rfl
    | pair key value =>
      cases hcurrent : file.current with
      | none =>
        refine ⟨fun h => ?_, fun h => nomatch h.1.1⟩
        cases h.1.1 with
        | pair hsome _ => rw [current, hsome] at hcurrent; cases hcurrent
      | some name =>
        rw [and_right_comm, distinct_pair hcurrent, and_comm, ih, (push_pair key value hcurrent).2.2]
        exact and_congr_left' (and_iff_right rfl).symm

theorem empty_distinct : (IniFile.mk []).Distinct := ⟨List.nodup_nil, List.nodup_nil⟩

/-- **What `parse` accepts**, and the file it makes of it. -/
theorem parse_iff {raw : Text} {file : IniFile} :
    parse raw = .ok file ↔
      Proper none ((lines raw).map classify) ∧ file.Distinct ∧ file = ((lines raw).map classify).foldl push ⟨[]⟩ := by
  rw [parse, foldlM_parseLine]
  constructor
  · rintro ⟨ha, rfl⟩
    obtain ⟨hp, hd⟩ := (admits_iff _ _).mp ⟨ha, empty_distinct⟩
    exact ⟨hp, hd, rfl⟩
  · rintro ⟨hp, hd, rfl⟩
    exact ⟨((admits_iff ⟨[]⟩ _).mpr ⟨hp, hd⟩).1, rfl⟩

/-! ## Lookups -/

/-- The only match is the first. -/
theorem find?_iff {α : Type} {l : List α} {f : α → Text} (h : (l.map f).Nodup) {p : α → Bool} {b : Text}
    (hp : ∀ x, p x = true ↔ f x = b) {a : α} : l.find? p = some a ↔ a ∈ l ∧ f a = b := by
  constructor
  · intro hfind
    exact ⟨List.mem_of_find?_eq_some hfind, (hp a).mp (List.find?_some hfind)⟩
  · rintro ⟨hmem, ha⟩
    cases hfind : l.find? p with
    | none => exact absurd ((hp a).mpr ha) (List.find?_eq_none.mp hfind a hmem)
    | some x =>
      have hx := ((hp x).mp (List.find?_some hfind)).trans ha.symm
      rw [List.inj_on_of_nodup_map h (List.mem_of_find?_eq_some hfind) hmem hx]

def lookup (file : IniFile) (name key : Text) : Option Text := (file.sectionNamed name).bind (·.get key)

theorem Distinct.keys {file : IniFile} (hd : file.Distinct) {s : Text × Section} (hs : s ∈ file.sections) :
    (s.2.pairs.map fun pair => toAsciiLowercase pair.1).Nodup := by
  have he := hd.entries
  rw [IniFile.entries, List.map_flatMap, List.nodup_flatMap] at he
  have hpairs := he.1 s hs
  rw [List.map_map] at hpairs
  refine List.Nodup.of_map (fun key => (toAsciiLowercase s.1, key)) ?_
  rw [List.map_map]
  exact hpairs

/-- **What a lookup finds** is what is in the file. -/
theorem Distinct.lookup_iff {file : IniFile} (hd : file.Distinct) {name key value : Text} :
    file.lookup name key = some value ↔
      ∃ e ∈ file.entries, e.id = (toAsciiLowercase name, toAsciiLowercase key) ∧ e.value = value := by
  have hnames := hd.names
  rw [IniFile.names, List.map_map] at hnames
  have hsection : ∀ s, file.sectionNamed name = some s ↔ ∃ n, (n, s) ∈ file.sections ∧
      toAsciiLowercase n = toAsciiLowercase name := by
    intro s
    rw [sectionNamed, Option.map_eq_some_iff]
    constructor
    · rintro ⟨⟨n, s'⟩, hfind, rfl⟩
      exact ⟨n, (find?_iff hnames fun _ => eqIgnoreAsciiCase_iff).mp hfind⟩
    · rintro ⟨n, hmem⟩
      exact ⟨(n, s), (find?_iff hnames fun _ => eqIgnoreAsciiCase_iff).mpr hmem, rfl⟩
  have hget : ∀ n s, (n, s) ∈ file.sections →
      (s.get key = some value ↔ ∃ k, (k, value) ∈ s.pairs ∧ toAsciiLowercase k = toAsciiLowercase key) := by
    intro n s hs
    have hkeys := hd.keys hs
    rw [Section.get, Option.map_eq_some_iff]
    constructor
    · rintro ⟨⟨k, v⟩, hfind, rfl⟩
      exact ⟨k, (find?_iff hkeys fun _ => eqIgnoreAsciiCase_iff).mp hfind⟩
    · rintro ⟨k, hmem⟩
      exact ⟨(k, value), (find?_iff hkeys fun _ => eqIgnoreAsciiCase_iff).mpr hmem, rfl⟩
  rw [lookup, Option.bind_eq_some_iff]
  constructor
  · rintro ⟨s, hs, hv⟩
    obtain ⟨n, hmem, hn⟩ := (hsection s).mp hs
    obtain ⟨k, hpair, hk⟩ := (hget n s hmem).mp hv
    refine ⟨⟨n, k, value⟩, ?_, Prod.ext hn hk, rfl⟩
    exact List.mem_flatMap.mpr ⟨(n, s), hmem, List.mem_map.mpr ⟨(k, value), hpair, rfl⟩⟩
  · rintro ⟨e, he, hid, rfl⟩
    obtain ⟨⟨n, s⟩, hmem, he⟩ := List.mem_flatMap.mp he
    obtain ⟨⟨k, v⟩, hpair, rfl⟩ := List.mem_map.mp he
    obtain ⟨hn, hk⟩ := Prod.mk.inj hid
    exact ⟨s, (hsection s).mpr ⟨n, hmem, hn⟩, (hget n s hmem).mpr ⟨k, hpair, hk⟩⟩

/-- The program knows the key. -/
def Known (key : Text) : Prop := ∃ k ∈ knownKeys, eqIgnoreAsciiCase key k.toList = true

/-- The same sections, with the same values for the keys that are known. -/
structure Agrees (file file' : IniFile) : Prop where
  names : ∀ name, name ∈ file'.names ↔ name ∈ file.names
  entries : ∀ e, Known e.key → (e ∈ file'.entries ↔ e ∈ file.entries)

namespace Agrees

variable {file file' : IniFile}

theorem lookup (h : Agrees file file') (hd : file.Distinct) (hd' : file'.Distinct) (name : Text) {key : String}
    (hkey : key ∈ knownKeys) : file'.lookup name key.toList = file.lookup name key.toList := by
  refine Option.ext fun value => ?_
  rw [hd'.lookup_iff, hd.lookup_iff]
  have hknown : ∀ e : Entry, e.id = (toAsciiLowercase name, toAsciiLowercase key.toList) → Known e.key := by
    intro e he
    exact ⟨key, hkey, eqIgnoreAsciiCase_iff.mpr (Prod.mk.inj he).2⟩
  constructor
  · rintro ⟨e, he, hid, hv⟩
    exact ⟨e, (h.entries e (hknown e hid)).mp he, hid, hv⟩
  · rintro ⟨e, he, hid, hv⟩
    exact ⟨e, (h.entries e (hknown e hid)).mpr he, hid, hv⟩

/-- Either both have a section of the name, or neither has. -/
theorem sections (h : Agrees file file') (hd : file.Distinct) (hd' : file'.Distinct) (name : Text) :
    (file'.sectionNamed name = none ∧ file.sectionNamed name = none) ∨
      ∃ s s', file'.sectionNamed name = some s' ∧ file.sectionNamed name = some s ∧
        ∀ key ∈ knownKeys, s'.get key.toList = s.get key.toList := by
  have hnone : file'.sectionNamed name = none ↔ file.sectionNamed name = none := by
    rw [sectionNamed_none, sectionNamed_none]
    simp only [List.mem_map, h.names]
  cases hs : file.sectionNamed name with
  | none => exact .inl ⟨hnone.mpr hs, rfl⟩
  | some s =>
    cases hs' : file'.sectionNamed name with
    | none => rw [hnone.mp hs'] at hs; cases hs
    | some s' =>
      refine .inr ⟨s, s', rfl, rfl, fun key hkey => ?_⟩
      have := h.lookup hd hd' name hkey
      simpa only [IniFile.lookup, hs, hs', Option.bind_some] using this

end Agrees

end IniFile

section Congr

variable {s s' : Section} (h : ∀ key ∈ knownKeys, s'.get key.toList = s.get key.toList)

include h

theorem required_congr (name : String) {key : String} (hkey : key ∈ knownKeys) :
    required name s' key = required name s key := by
  rw [required, required, h key hkey]

theorem optionalBool_congr (name : String) {key : String} (hkey : key ∈ knownKeys) :
    optionalBool name s' key = optionalBool name s key := by
  rw [optionalBool, optionalBool, h key hkey]

theorem parseTcpBrutal_congr (std : FromStr) : parseTcpBrutal std s' = parseTcpBrutal std s := by
  simp only [parseTcpBrutal, optionalBool_congr h serverSection (show "tcp_brutal" ∈ knownKeys by decide),
    required_congr h serverSection (show "tcp_brutal_send_mbps" ∈ knownKeys by decide),
    required_congr h serverSection (show "tcp_brutal_cwnd_gain" ∈ knownKeys by decide)]

theorem ClientConfig.ofSection_congr (std : FromStr) : ClientConfig.ofSection std s' = ClientConfig.ofSection std s := by
  simp only [ClientConfig.ofSection, optionalBool_congr h clientSection (show "reuse" ∈ knownKeys by decide),
    required_congr h clientSection (show "version" ∈ knownKeys by decide),
    required_congr h clientSection (show "listen" ∈ knownKeys by decide),
    required_congr h clientSection (show "server" ∈ knownKeys by decide),
    required_congr h clientSection (show "psk" ∈ knownKeys by decide)]

theorem ServerConfig.ofSection_congr (std : FromStr) : ServerConfig.ofSection std s' = ServerConfig.ofSection std s := by
  simp only [ServerConfig.ofSection, parseTcpBrutal_congr h, h "version" (by decide), h "mode" (by decide),
    h "upstream_socks5" (by decide), required_congr h serverSection (show "listen" ∈ knownKeys by decide),
    required_congr h serverSection (show "psk" ∈ knownKeys by decide)]

end Congr

/-- Texts whose files agree are the same configuration. -/
theorem IniFile.Agrees.configs {raw raw' : Text} {file file' : IniFile} (h : Agrees file file')
    (hraw : IniFile.parse raw = .ok file) (hraw' : IniFile.parse raw' = .ok file') (std : FromStr) :
    ClientConfig.parse std raw' = ClientConfig.parse std raw ∧
      ServerConfig.parse std raw' = ServerConfig.parse std raw := by
  have hd := (IniFile.parse_iff.mp hraw).2.1
  have hd' := (IniFile.parse_iff.mp hraw').2.1
  constructor
  · simp only [ClientConfig.parse, hraw, hraw', bind, Except.bind]
    obtain ⟨hs', hs⟩ | ⟨s, s', hs', hs, hget⟩ := h.sections hd hd' clientSection.toList
    · rw [hs, hs']
    · simp only [hs, hs', ClientConfig.ofSection_congr hget]
  · simp only [ServerConfig.parse, hraw, hraw', bind, Except.bind]
    obtain ⟨hs', hs⟩ | ⟨s, s', hs', hs, hget⟩ := h.sections hd hd' serverSection.toList
    · rw [hs, hs']
    · simp only [hs, hs', ServerConfig.ofSection_congr hget]

end Snell
