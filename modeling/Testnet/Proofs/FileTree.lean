import Testnet.FileTree

/-!
# What writing changes

Writing adds files and directories and takes none away. So a path that leads to a file or directory
leads there ever after, a file holds what was last written at its own place, and whether a file can
be written never depends on what files hold.
-/

namespace Testnet

/-- The entry, whatever a file holds. -/
def Entry.outline : Entry → Entry
  | .directory => .directory
  | .file _ => .file (.text "")

def Spot.outline : Spot → Spot
  | .found place e => .found place e.outline
  | .vacant place slash => .vacant place slash
  | .missing => .missing
  | .blocked => .blocked

namespace FileTree

theorem lookup_filter_ne {entries : List (Location × Entry)} {place q : Location} (h : q ≠ place) :
    (entries.filter fun old => old.1 != place).lookup q = entries.lookup q := by
  induction entries with
  | nil => rfl
  | cons entry rest ih =>
    obtain ⟨p, e⟩ := entry
    by_cases hp : p = place
    · subst hp
      have hne : (q == p) = false := beq_eq_false_iff_ne.mpr h
      rw [List.filter_cons_of_neg (by simp), ih, List.lookup_cons, hne]
    · rw [List.filter_cons_of_pos (by simpa using hp), List.lookup_cons, List.lookup_cons, ih]

theorem entry?_put_ne {t : FileTree} {place q : Location} {e : Entry} (h : q ≠ place) :
    FileTree.entry? (t.put place e) q = t.entry? q := by
  have hne : (q == place) = false := beq_eq_false_iff_ne.mpr h
  show (if q.isPrefixOf t.home then some Entry.directory else List.lookup q (_ :: _)) = _
  rw [List.lookup_cons, hne, lookup_filter_ne h]
  rfl

/-- On the way to the working directory there are only directories. -/
theorem entry?_put_self {t : FileTree} {place : Location} {e : Entry}
    (h : t.entry? place ≠ some .directory) :
    FileTree.entry? (t.put place e) place = some e := by
  have hhome : ¬ place.isPrefixOf t.home = true := by
    intro hhome
    exact h (if_pos hhome)
  show (if place.isPrefixOf t.home then some Entry.directory else List.lookup place (_ :: _)) = _
  rw [if_neg hhome, List.lookup_cons_self]

/-- A tree with the same files and directories and perhaps more. -/
structure Extends (t t' : FileTree) : Prop where
  home : t'.home = t.home
  entries : ∀ place e, t.entry? place = some e → t'.entry? place = some e

namespace Extends

variable {t t' t'' : FileTree}

theorem refl (t : FileTree) : Extends t t := ⟨rfl, fun _ _ h => h⟩

theorem trans (h : Extends t t') (h' : Extends t' t'') : Extends t t'' :=
  ⟨h'.home.trans h.home, fun place e he => h'.entries place e (h.entries place e he)⟩

theorem of_put {place : Location} {e : Entry} (h : ∀ old, t.entry? place = some old → old = e) :
    Extends t (t.put place e) := by
  refine ⟨rfl, fun q old hold => ?_⟩
  by_cases hq : q = place
  · subst hq
    obtain rfl := h old hold
    by_cases hdir : t.entry? q = some .directory
    · rw [hdir] at hold
      cases hold
      show (if q.isPrefixOf t.home then some Entry.directory else List.lookup q (_ :: _)) = _
      rw [List.lookup_cons_self, ite_self]
    · exact entry?_put_self hdir
  · exact (entry?_put_ne hq).trans hold

end Extends

section Follow

variable {t t' : FileTree} {part : String} {rest ps : List String} {here place : Location}

theorem follow_idle (h : part = "" ∨ part = ".") :
    t.follow here (part :: rest) = t.follow here rest := by
  rw [follow, if_pos h]

theorem follow_up (h : part = "..") :
    t.follow here (part :: rest) = t.follow here.dropLast rest := by
  subst h
  rw [follow, if_neg (by decide), if_pos rfl]

theorem follow_long (h : ¬ (part = "" ∨ part = ".")) (hup : part ≠ "..")
    (hlong : nameLimit < part.utf8ByteSize) : t.follow here (part :: rest) = .blocked := by
  rw [follow, if_neg h, if_neg hup, if_pos hlong]

/-- What becomes of a path at an entry by that name. -/
def arrive (t : FileTree) (place : Location) (rest : List String) : Option Entry → Spot
  | some .directory => t.follow place rest
  | some (.file c) => if rest.isEmpty then .found place (.file c) else .blocked
  | none => if rest.all (·.isEmpty) then .vacant place (!rest.isEmpty) else .missing

theorem follow_name (h : ¬ (part = "" ∨ part = ".")) (hup : part ≠ "..")
    (hshort : ¬ nameLimit < part.utf8ByteSize) : t.follow here (part :: rest) =
      t.arrive (here ++ [part]) rest ( t.entry? (here ++ [part])) := by
  rw [follow, if_neg h, if_neg hup, if_neg hshort]
  cases t.entry? (here ++ [part]) with
  | none => rfl
  | some e => cases e <;> rfl

/-- A component leads on without a look at the tree, or nowhere, or to an entry by its name. -/
theorem follow_cons_cases (here : Location) (part : String) :
    (∃ next, ∀ (t : FileTree) rest, t.follow here (part :: rest) = t.follow next rest) ∨
    (∀ (t : FileTree) rest, t.follow here (part :: rest) = .blocked) ∨
    ∀ (t : FileTree) rest, t.follow here (part :: rest) =
      t.arrive (here ++ [part]) rest ( t.entry? (here ++ [part])) := by
  by_cases hidle : part = "" ∨ part = "."
  · exact .inl ⟨here, fun t rest => follow_idle hidle⟩
  by_cases hup : part = ".."
  · exact .inl ⟨here.dropLast, fun t rest => follow_up hup⟩
  by_cases hlong : nameLimit < part.utf8ByteSize
  · exact .inr (.inl fun t rest => follow_long hidle hup hlong)
  · exact .inr (.inr fun t rest => follow_name hidle hup hlong)

theorem arrive_eq_found {entry : Option Entry} {e : Entry}
    (h : t.arrive here rest entry = .found place e) :
    entry = some .directory ∧ t.follow here rest = .found place e ∨
      ∃ c, entry = some (.file c) ∧ rest.isEmpty = true ∧ place = here ∧ e = .file c := by
  cases entry with
  | none =>
    rw [arrive] at h
    split at h <;> cases h
  | some entry =>
    cases entry with
    | directory => exact .inl ⟨rfl, h⟩
    | file c =>
      rw [arrive] at h
      split at h
      case isTrue hrest =>
        cases h
        exact .inr ⟨c, rfl, hrest, rfl, rfl⟩
      case isFalse => cases h

theorem arrive_eq_vacant {entry : Option Entry} {slash : Bool}
    (h : t.arrive here rest entry = .vacant place slash) :
    entry = some .directory ∧ t.follow here rest = .vacant place slash ∨
      entry = none ∧ rest.all (·.isEmpty) = true ∧ place = here ∧ slash = !rest.isEmpty := by
  cases entry with
  | none =>
    rw [arrive] at h
    split at h
    case isTrue hrest =>
      cases h
      exact .inr ⟨rfl, hrest, rfl, rfl⟩
    case isFalse => cases h
  | some entry =>
    cases entry with
    | directory => exact .inl ⟨rfl, h⟩
    | file c =>
      rw [arrive] at h
      split at h <;> cases h

/-- A path that leads somewhere still leads there when the tree has grown. -/
theorem Extends.follow (h : Extends t t') {e : Entry} (hfound : t.follow here ps = .found place e) :
    t'.follow here ps = .found place e := by
  induction ps generalizing here with
  | nil => exact hfound
  | cons part rest ih =>
    rcases follow_cons_cases here part with ⟨next, hnext⟩ | hblocked | harrive
    · rw [hnext] at hfound ⊢
      exact ih hfound
    · rw [hblocked] at hfound
      cases hfound
    · rw [harrive] at hfound ⊢
      rcases arrive_eq_found hfound with ⟨hentry, hrest⟩ | ⟨c, hentry, hempty, rfl, rfl⟩
      · rw [h.entries _ _ hentry]
        exact ih hrest
      · rw [h.entries _ _ hentry]
        exact if_pos hempty

/-- A file that a path leads to is an entry of the tree. -/
theorem entry?_of_follow {c : Content} (hfound : t.follow here ps = .found place (.file c)) :
    t.entry? place = some (.file c) := by
  induction ps generalizing here with
  | nil => cases hfound
  | cons part rest ih =>
    rcases follow_cons_cases here part with ⟨next, hnext⟩ | hblocked | harrive
    · rw [hnext] at hfound
      exact ih hfound
    · rw [hblocked] at hfound
      cases hfound
    · rw [harrive] at hfound
      rcases arrive_eq_found hfound with ⟨_, hrest⟩ | ⟨c', hentry, _, rfl, hfile⟩
      · exact ih hrest
      · rw [hentry, hfile]

/-- Names that are all empty lead nowhere else. -/
theorem follow_slashes (h : rest.all (·.isEmpty) = true) :
    t.follow here rest = .found here .directory := by
  induction rest with
  | nil => rfl
  | cons part rest ih =>
    rw [List.all_cons, Bool.and_eq_true, String.isEmpty_iff] at h
    rw [follow_idle (.inl h.1), ih h.2]

theorem entry?_of_vacant {slash : Bool} (hvacant : t.follow here ps = .vacant place slash) :
    t.entry? place = none := by
  induction ps generalizing here with
  | nil => cases hvacant
  | cons part rest ih =>
    rcases follow_cons_cases here part with ⟨next, hnext⟩ | hblocked | harrive
    · rw [hnext] at hvacant
      exact ih hvacant
    · rw [hblocked] at hvacant
      cases hvacant
    · rw [harrive] at hvacant
      rcases arrive_eq_vacant hvacant with ⟨_, hrest⟩ | ⟨hentry, _, rfl, _⟩
      · exact ih hrest
      · exact hentry

/-- What is put where a path leads to nothing is found there; a file only without a slash behind
it. -/
theorem Extends.follow_vacant (h : Extends t t') {slash : Bool} {e : Entry}
    (hput : t'.entry? place = some e) (hslash : slash = true → e = .directory)
    (hvacant : t.follow here ps = .vacant place slash) : t'.follow here ps = .found place e := by
  induction ps generalizing here with
  | nil => cases hvacant
  | cons part rest ih =>
    rcases follow_cons_cases here part with ⟨next, hnext⟩ | hblocked | harrive
    · rw [hnext] at hvacant ⊢
      exact ih hvacant
    · rw [hblocked] at hvacant
      cases hvacant
    rw [harrive] at hvacant ⊢
    rcases arrive_eq_vacant hvacant with ⟨hentry, hrest⟩ | ⟨_, hrest, rfl, rfl⟩
    · rw [h.entries _ _ hentry]
      exact ih hrest
    rw [hput]
    cases e with
    | directory => exact follow_slashes hrest
    | file c =>
      cases hempty : rest.isEmpty with
      | true => exact if_pos hempty
      | false =>
        rw [hempty] at hslash
        cases hslash rfl

/-- A path that ends in a name leads to a file of that name, or to where one would be. -/
theorem getLast?_of_follow {init : List String} {name : String} {c : Content} {slash : Bool}
    (hname : ¬ (name = "" ∨ name = ".")) (hup : name ≠ "..")
    (h : t.follow here (init ++ [name]) = .found place (.file c) ∨
      t.follow here (init ++ [name]) = .vacant place slash) : place.getLast? = some name := by
  induction init generalizing here with
  | nil =>
    rw [List.nil_append] at h
    by_cases hlong : nameLimit < name.utf8ByteSize
    · rw [follow_long hname hup hlong] at h
      rcases h with h | h <;> cases h
    rw [follow_name hname hup hlong] at h
    have hplace : place = here ++ [name] := by
      rcases h with hfound | hvacant
      · rcases arrive_eq_found hfound with ⟨_, hrest⟩ | ⟨_, _, _, hplace, _⟩
        · cases hrest
        · exact hplace
      · rcases arrive_eq_vacant hvacant with ⟨_, hrest⟩ | ⟨_, _, hplace, _⟩
        · cases hrest
        · exact hplace
    rw [hplace, List.getLast?_concat]
  | cons part rest ih =>
    rw [List.cons_append] at h
    rcases follow_cons_cases here part with ⟨next, hnext⟩ | hblocked | harrive
    · rw [hnext] at h
      exact ih h
    · rw [hblocked] at h
      rcases h with h | h <;> cases h
    rw [harrive] at h
    rcases h with hfound | hvacant
    · rcases arrive_eq_found hfound with ⟨_, hrest⟩ | ⟨_, _, hempty, _⟩
      · exact ih (.inl hrest)
      · simp at hempty
    · rcases arrive_eq_vacant hvacant with ⟨_, hrest⟩ | ⟨_, hall, _⟩
      · exact ih (.inr hrest)
      · -- The name itself is behind the entry and is not empty.
        rw [List.all_append, Bool.and_eq_true, List.all_cons, Bool.and_eq_true,
          String.isEmpty_iff] at hall
        exact absurd (.inl hall.2.1) hname

end Follow

section Resolve

variable {t t' : FileTree} {p q : Path} {place : Location}

/-- Where the first component of a path is looked for. -/
def start (t : FileTree) (p : Path) : Location :=
  if p.text.toList.head? = some '/' then [] else t.home

/-- A path leads nowhere in every tree, or its components are followed in every tree. -/
theorem resolve_cases (p : Path) :
    (∀ t : FileTree, t.resolve p = .missing) ∨ (∀ t : FileTree, t.resolve p = .blocked) ∨
      ∀ t : FileTree, t.resolve p = t.follow (t.start p) (parts p) := by
  unfold resolve
  by_cases hempty : p.text.isEmpty = true
  · exact .inl fun t => if_pos hempty
  by_cases hbad : pathLimit ≤ p.text.utf8ByteSize ∨ p.text.toList.any (·.toNat == 0)
  · refine .inr (.inl fun t => ?_)
    rw [if_neg hempty, if_pos hbad]
  · refine .inr (.inr fun t => ?_)
    rw [if_neg hempty, if_neg hbad]
    rfl

/-- A path that leads somewhere in one tree has its components followed in every tree. -/
theorem resolve_eq_follow {spot : Spot} (h : t.resolve p = spot) (hmissing : spot ≠ .missing)
    (hblocked : spot ≠ .blocked) (t' : FileTree) :
    t'.resolve p = t'.follow (t'.start p) (parts p) := by
  rcases resolve_cases p with hall | hall | hall
  · exact absurd (h.symm.trans (hall t)) hmissing
  · exact absurd (h.symm.trans (hall t)) hblocked
  · exact hall t'

theorem Extends.start (h : Extends t t') (p : Path) : t'.start p = t.start p := by
  rw [FileTree.start, FileTree.start, h.home]

theorem Extends.resolve (h : Extends t t') {e : Entry} (hfound : t.resolve p = .found place e) :
    t'.resolve p = .found place e := by
  have hfollow := resolve_eq_follow hfound nofun nofun
  rw [hfollow] at hfound ⊢
  rw [h.start]
  exact h.follow hfound

theorem entry?_of_resolve {c : Content} (hfound : t.resolve p = .found place (.file c)) :
    t.entry? place = some (.file c) := by
  rw [resolve_eq_follow hfound nofun nofun] at hfound
  exact entry?_of_follow hfound

theorem entry?_of_resolve_vacant {slash : Bool} (hvacant : t.resolve p = .vacant place slash) :
    t.entry? place = none := by
  rw [resolve_eq_follow hvacant nofun nofun] at hvacant
  exact entry?_of_vacant hvacant

/-- Something put where a path leads to nothing is found there. -/
theorem resolve_put_vacant {slash : Bool} {e : Entry} (hslash : slash = true → e = .directory)
    (hvacant : t.resolve p = .vacant place slash) :
    Extends t (t.put place e) ∧ (t.put place e).resolve p = .found place e := by
  have hnone := entry?_of_resolve_vacant hvacant
  have hextends : Extends t (t.put place e) := by
    refine .of_put fun old hold => ?_
    rw [hnone] at hold
    cases hold
  have hput : FileTree.entry? (t.put place e) place = some e := by
    apply entry?_put_self
    rw [hnone]
    nofun
  refine ⟨hextends, ?_⟩
  have hfollow := resolve_eq_follow hvacant nofun nofun
  rw [hfollow] at hvacant ⊢
  rw [hextends.start]
  exact hextends.follow_vacant hput hslash hvacant

end Resolve

section Outline

/-- The tree with the same files and directories, and no text in the files. -/
def outline (t : FileTree) : FileTree :=
  { t with entries := t.entries.map fun e => (e.1, e.2.outline) }

variable {t t' : FileTree} {p : Path} {place : Location}

theorem entry?_outline : t.outline.entry? place =
    ( t.entry? place).map Entry.outline := by
  have hlookup : ∀ entries : List (Location × Entry),
      (entries.map fun e => (e.1, e.2.outline)).lookup place =
        (entries.lookup place).map Entry.outline := by
    intro entries
    induction entries with
    | nil => rfl
    | cons entry rest ih =>
      rw [List.map_cons, List.lookup_cons, List.lookup_cons, ih]
      cases place == entry.1 <;> rfl
  unfold entry?
  show (if place.isPrefixOf t.home then _ else _) = _
  split
  · rfl
  · exact hlookup t.entries

theorem outline_put {e : Entry} : (t.put place e).outline = t.outline.put place e.outline := by
  unfold put outline
  simp only [List.map_cons, List.filter_map]
  rfl

theorem follow_outline {here : Location} {ps : List String} :
    t.outline.follow here ps = (t.follow here ps).outline := by
  induction ps generalizing here with
  | nil => rfl
  | cons part rest ih =>
    rcases follow_cons_cases here part with ⟨next, hnext⟩ | hblocked | harrive
    · rw [hnext, hnext, ih]
    · rw [hblocked, hblocked]
      rfl
    rw [harrive, harrive, entry?_outline]
    cases hentry : t.entry? (here ++ [part]) with
    | none =>
      rw [Option.map_none, arrive, arrive]
      split <;> rfl
    | some entry =>
      cases entry with
      | directory => exact ih
      | file c =>
        rw [Option.map_some, Entry.outline, arrive, arrive]
        split <;> rfl

theorem resolve_outline : t.outline.resolve p = (t.resolve p).outline := by
  rcases resolve_cases p with hmissing | hblocked | hfollow
  · rw [hmissing, hmissing]
    rfl
  · rw [hblocked, hblocked]
    rfl
  · rw [hfollow, hfollow]
    exact follow_outline

theorem write_outline (c : Content) :
    (t.write p c).map outline = t.outline.write p (.text "") := by
  unfold write
  rw [resolve_outline]
  cases t.resolve p with
  | found place e =>
    cases e with
    | directory => rfl
    | file old => exact congrArg some outline_put
  | vacant place slash =>
    cases slash
    · exact congrArg some outline_put
    · rfl
  | missing => rfl
  | blocked => rfl

theorem makeDirectory_outline : (t.makeDirectory p).map outline = t.outline.makeDirectory p := by
  unfold makeDirectory
  rw [resolve_outline]
  cases t.resolve p with
  | found place e => cases e <;> rfl
  | vacant place slash => exact congrArg some outline_put
  | missing => rfl
  | blocked => rfl

theorem makeWithin_outline (steps : Nat) :
    (t.makeWithin steps p).map outline = t.outline.makeWithin steps p := by
  induction steps generalizing p with
  | zero => rfl
  | succ steps ih =>
    unfold makeWithin
    rw [resolve_outline]
    split
    · rfl
    cases t.resolve p with
    | found place e => exact makeDirectory_outline
    | vacant place slash => exact makeDirectory_outline
    | blocked => exact makeDirectory_outline
    | missing =>
      cases hparent : p.parent with
      | none => rfl
      | some above =>
        show Option.map outline (Option.bind _ _) = Option.bind _ _
        rw [← ih]
        cases t.makeWithin steps above with
        | none => rfl
        | some made => exact makeDirectory_outline

theorem makeDirectories_outline :
    (t.makeDirectories p).map outline = t.outline.makeDirectories p :=
  makeWithin_outline _

theorem Extends.outline (h : Extends t t') : Extends t.outline t'.outline := by
  refine ⟨h.home, fun place e he => ?_⟩
  rw [entry?_outline, Option.map_eq_some_iff] at he
  obtain ⟨old, hold, rfl⟩ := he
  rw [entry?_outline, h.entries _ _ hold, Option.map_some]

/-- A path that leads somewhere still leads there, whatever has been written. -/
theorem resolve_of_grown (h : Extends t.outline t'.outline) {e : Entry}
    (hfound : t.resolve p = .found place e) :
    ∃ e', t'.resolve p = .found place e' ∧ e'.outline = e.outline := by
  have hthere := @Extends.resolve _ _ p place h e.outline (by rw [resolve_outline, hfound]; rfl)
  rw [resolve_outline] at hthere
  cases hspot : t'.resolve p with
  | found place' e' =>
    rw [hspot] at hthere
    injection hthere with hplace he
    exact ⟨e', by rw [hplace], he⟩
  | _ =>
    rw [hspot] at hthere
    cases hthere

theorem resolve_file_of_grown (h : Extends t.outline t'.outline) {c : Content}
    (hfound : t.resolve p = .found place (.file c)) :
    ∃ c', t'.resolve p = .found place (.file c') := by
  obtain ⟨e', he', houtline⟩ := resolve_of_grown h hfound
  cases e' with
  | directory => cases houtline
  | file c' => exact ⟨c', he'⟩

end Outline

section Write

variable {t t' : FileTree} {p q : Path} {place there : Location} {c : Content}

/-- A file can be written at a path, and lies at the place. -/
def Writable (t : FileTree) (p : Path) (place : Location) : Prop :=
  (∃ old, t.resolve p = .found place (.file old)) ∨ t.resolve p = .vacant place false

theorem write_eq_some_iff : t.write p c = some t' ↔
    ∃ place, t.Writable p place ∧ t' = t.put place (.file c) := by
  unfold write Writable
  cases t.resolve p with
  | found place e => cases e <;> simp [eq_comm]
  | vacant place slash => cases slash <;> simp [eq_comm]
  | missing => simp
  | blocked => simp

/-- Writing keeps all files and directories, and the file is found at its place. -/
theorem Writable.put (h : t.Writable p place) (c : Content) :
    Extends t.outline (t.put place (.file c)).outline ∧
      (t.put place (.file c)).resolve p = .found place (.file c) := by
  rcases h with ⟨old, hfound⟩ | hvacant
  · have hentry := entry?_of_resolve hfound
    have hgrown : Extends t.outline (t.put place (.file c)).outline := by
      rw [outline_put]
      refine .of_put fun e he => ?_
      rw [entry?_outline, hentry] at he
      cases he
      rfl
    obtain ⟨c', hc'⟩ := resolve_file_of_grown hgrown hfound
    have hput : FileTree.entry? (t.put place (.file c)) place = some (.file c) := by
      apply entry?_put_self
      rw [hentry]
      nofun
    rw [entry?_of_resolve hc'] at hput
    cases hput
    exact ⟨hgrown, hc'⟩
  · obtain ⟨hextends, hfound⟩ := @resolve_put_vacant t p place false (.file c) nofun hvacant
    exact ⟨hextends.outline, hfound⟩

/-- Writing a file leaves the other files as they are. -/
theorem Writable.put_ne (h : t.Writable q there) (hne : place ≠ there) {c' : Content}
    (hfound : t.resolve p = .found place (.file c')) :
    (t.put there (.file c)).resolve p = .found place (.file c') := by
  obtain ⟨kept, hkept⟩ := resolve_file_of_grown (h.put c).1 hfound
  have hentry := entry?_of_resolve hkept
  rw [entry?_put_ne hne, entry?_of_resolve hfound] at hentry
  cases hentry
  exact hkept

end Write

section MakeDirectories

variable {t t' : FileTree} {p : Path}

/-- The directory is there; the empty path stands for one that always is. -/
def Ready (t : FileTree) (p : Path) : Prop :=
  p.text.isEmpty = true ∨ ∃ place, t.resolve p = .found place .directory

theorem Ready.of_grown (h : Extends t.outline t'.outline) (hready : t.Ready p) : t'.Ready p := by
  rcases hready with hempty | ⟨place, hfound⟩
  · exact .inl hempty
  · obtain ⟨e', he', houtline⟩ := resolve_of_grown h hfound
    cases e' with
    | directory => exact .inr ⟨place, he'⟩
    | file c => cases houtline

theorem makeDirectory_eq_some (h : t.makeDirectory p = some t') :
    Extends t t' ∧ ∃ place, t'.resolve p = .found place .directory := by
  unfold makeDirectory at h
  cases hspot : t.resolve p with
  | found place e =>
    rw [hspot] at h
    cases e with
    | directory =>
      cases h
      exact ⟨.refl t, place, hspot⟩
    | file c => cases h
  | vacant place slash =>
    rw [hspot] at h
    cases h
    obtain ⟨hextends, hfound⟩ := resolve_put_vacant (fun _ => rfl) hspot
    exact ⟨hextends, place, hfound⟩
  | missing =>
    rw [hspot] at h
    cases h
  | blocked =>
    rw [hspot] at h
    cases h

theorem makeWithin_eq_some {steps : Nat} (h : t.makeWithin steps p = some t') :
    Extends t t' ∧ t'.Ready p := by
  induction steps generalizing p t' with
  | zero => cases h
  | succ steps ih =>
    unfold makeWithin at h
    split at h
    case isTrue hempty =>
      cases h
      exact ⟨.refl t, .inl hempty⟩
    split at h
    · split at h
      · cases h
      · obtain ⟨made, hmade, hlast⟩ := Option.bind_eq_some_iff.mp h
        obtain ⟨hextends, hfound⟩ := makeDirectory_eq_some hlast
        exact ⟨(ih hmade).1.trans hextends, .inr hfound⟩
    · obtain ⟨hextends, hfound⟩ := makeDirectory_eq_some h
      exact ⟨hextends, .inr hfound⟩

/-- Making directories changes no file, and afterwards the directory is there. -/
theorem makeDirectories_eq_some (h : t.makeDirectories p = some t') :
    Extends t t' ∧ t'.Ready p := makeWithin_eq_some h

/-- A directory that is there is not made again. -/
theorem makeDirectories_of_ready (h : t.Ready p) : t.makeDirectories p = some t := by
  unfold makeDirectories makeWithin
  rcases h with hempty | ⟨place, hfound⟩
  · rw [if_pos hempty]
  · split
    · rfl
    · rw [hfound]
      show t.makeDirectory p = some t
      rw [makeDirectory, hfound]

end MakeDirectories

end FileTree

end Testnet
