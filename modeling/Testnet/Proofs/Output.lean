import Testnet.Output
import Testnet.Proofs.Build
import Testnet.Proofs.FileTree

/-!
# Output that was written

After a run that went well each of the three files holds its own text, and the same directory can be
written into again. Whether a directory can be written into never depends on what is to be written.
-/

namespace Testnet

namespace Path

theorem splitList_ne_nil (cs : List Char) : splitList cs ≠ [] := by
  cases cs with
  | nil => nofun
  | cons c cs =>
    rw [splitList]
    split
    · nofun
    · split <;> nofun

theorem splitList_append (cs ds : List Char) :
    splitList (cs ++ '/' :: ds) = splitList cs ++ splitList ds := by
  induction cs with
  | nil => rfl
  | cons c cs ih =>
    rw [List.cons_append, splitList, splitList, ih]
    split
    · rfl
    · cases hparts : splitList cs with
      | nil => exact absurd hparts (splitList_ne_nil cs)
      | cons part parts => rfl

theorem splitList_of_plain {cs : List Char} (h : '/' ∉ cs) : splitList cs = [cs] := by
  induction cs with
  | nil => rfl
  | cons c cs ih =>
    rw [List.mem_cons, not_or] at h
    rw [splitList, if_neg (Ne.symm h.1), ih h.2]

/-- A name without a slash is the last component of every path that it is joined to. -/
theorem parts_join (dir : Path) {name : String} (h : '/' ∉ name.toList) :
    ∃ init, FileTree.parts (dir.join name) = init ++ [name] := by
  have hname : (splitList name.toList).map String.ofList = [name] := by
    rw [splitList_of_plain h]
    simp
  have hhead : name.toList.head? ≠ some '/' := by
    intro hhead
    exact h (List.mem_of_mem_head? hhead)
  have hslash : ∀ cs, (splitList (cs ++ '/' :: name.toList)).map String.ofList =
      (splitList cs).map String.ofList ++ [name] := by
    intro cs
    rw [splitList_append, List.map_append, hname]
  unfold FileTree.parts join
  rw [if_neg hhead]
  split
  case isTrue hbase =>
    show ∃ init, (splitList (dir.text ++ name).toList).map String.ofList = init ++ [name]
    rw [Bool.or_eq_true, decide_eq_true_eq, String.isEmpty_iff] at hbase
    rw [String.toList_append]
    rcases hbase with hempty | hlast
    · refine ⟨[], ?_⟩
      rw [hempty]
      exact hname
    · obtain ⟨cs, hcs⟩ := List.getLast?_eq_some_iff.mp hlast
      refine ⟨(splitList cs).map String.ofList, ?_⟩
      rw [hcs, List.append_assoc]
      exact hslash cs
  case isFalse =>
    show ∃ init, (splitList (dir.text ++ "/" ++ name).toList).map String.ofList = init ++ [name]
    rw [String.toList_append, String.toList_append, List.append_assoc]
    exact ⟨_, hslash _⟩

end Path

namespace FileTree

variable {files files' : FileTree} {what : FileKind} {path : Path} {s : String} {place : Location}

/-- A file with a text is at the path. -/
def Holds (files : FileTree) (path : Path) (s : String) : Prop :=
  ∃ place, files.resolve path = .found place (.file (.text s))

theorem Holds.readText (h : files.Holds path s) : files.readText path = some s := by
  obtain ⟨place, hfound⟩ := h
  rw [FileTree.readText, hfound]

theorem Holds.isFile (h : files.Holds path s) : files.isFile path = true := by
  obtain ⟨place, hfound⟩ := h
  rw [FileTree.isFile, hfound]

theorem Holds.exists? (h : files.Holds path s) : files.exists? path = true := by
  obtain ⟨place, hfound⟩ := h
  rw [FileTree.exists?, hfound]

theorem holds_of_readText (h : files.readText path = some s) : files.Holds path s := by
  unfold FileTree.readText at h
  split at h
  case h_1 place _ hfound =>
    cases h
    exact ⟨place, hfound⟩
  case h_2 => cases h

/-- A file is at the path, and the directory above it is there under its own name. -/
def Stands (files : FileTree) (path : Path) : Prop :=
  (∀ above, path.parent = some above → files.Ready above) ∧
    ∃ place c, files.resolve path = .found place (.file c)

theorem Stands.of_grown (h : Extends files.outline files'.outline) (hstands : files.Stands path) :
    files'.Stands path := by
  obtain ⟨hready, place, c, hfound⟩ := hstands
  obtain ⟨c', hc'⟩ := resolve_file_of_grown h hfound
  exact ⟨fun above habove => (hready above habove).of_grown h, place, c', hc'⟩

/-- The last step of writing a document. -/
def writeAt (files : FileTree) (what : FileKind) (path : Path) (s : String) :
    Except FileFault FileTree :=
  (files.write path (.text s)).elim (.error (.unwritten what path)) .ok

theorem writeDocument_eq : files.writeDocument what path s =
    path.parent.elim (files.writeAt what path s) fun above =>
      (files.makeDirectories above).elim (.error (.noDirectory above)) fun made =>
        made.writeAt what path s := by
  have hplace : ∀ made : FileTree, made.writeAt what path s =
      (made.write path (.text s)).elim (.error (.unwritten what path)) .ok := fun _ => rfl
  unfold writeDocument
  cases path.parent with
  | none =>
    dsimp only
    rw [Option.elim_none, hplace]
    cases files.write path (.text s) <;> rfl
  | some above =>
    dsimp only
    rw [Option.elim_some]
    cases files.makeDirectories above with
    | none => rfl
    | some made =>
      dsimp only
      rw [Option.elim_some, hplace]
      cases made.write path (.text s) <;> rfl

theorem writeAt_eq_ok_iff : files.writeAt what path s = .ok files' ↔
    ∃ place, files.Writable path place ∧ files' = files.put place (.file (.text s)) := by
  rw [← write_eq_some_iff, writeAt]
  cases files.write path (.text s) with
  | none => simp
  | some made => simp

theorem writeAt_outline :
    (files.writeAt what path s).map outline = files.outline.writeAt what path "" := by
  rw [writeAt, writeAt, ← write_outline (.text s)]
  cases files.write path (.text s) <;> rfl

/-- A document that was written lies at a place where it could be written, in a tree where only
directories had been made before. -/
theorem writeDocument_eq_ok (h : files.writeDocument what path s = .ok files') :
    ∃ made place, Extends files made ∧ (∀ above, path.parent = some above → made.Ready above) ∧
      made.Writable path place ∧ files' = made.put place (.file (.text s)) := by
  rw [writeDocument_eq] at h
  cases habove : path.parent with
  | none =>
    rw [habove, Option.elim_none] at h
    obtain ⟨place, hwritable, hput⟩ := writeAt_eq_ok_iff.mp h
    exact ⟨files, place, .refl files, nofun, hwritable, hput⟩
  | some above =>
    rw [habove, Option.elim_some] at h
    cases hmade : files.makeDirectories above with
    | none =>
      rw [hmade] at h
      cases h
    | some made =>
      rw [hmade, Option.elim_some] at h
      obtain ⟨hextends, hready⟩ := makeDirectories_eq_some hmade
      obtain ⟨place, hwritable, hput⟩ := writeAt_eq_ok_iff.mp h
      refine ⟨made, place, hextends, ?_, hwritable, hput⟩
      intro above' habove'
      cases habove'
      exact hready

/-- A document that was written is there, and can be written over. -/
theorem holds_of_writeDocument (h : files.writeDocument what path s = .ok files') :
    files'.Holds path s ∧ files'.Stands path := by
  obtain ⟨made, place, _, habove, hwritable, rfl⟩ := writeDocument_eq_ok h
  obtain ⟨hgrown, hfound⟩ := hwritable.put (.text s)
  exact ⟨⟨place, hfound⟩, fun above h => (habove above h).of_grown hgrown, place, _, hfound⟩

/-- A document can be written again where one stands. -/
theorem writeDocument_of_stands (h : files.Stands path) (what : FileKind) (s : String) :
    ∃ files', files.writeDocument what path s = .ok files' ∧
      Extends files.outline files'.outline := by
  obtain ⟨hready, place, c, hfound⟩ := h
  have hwritable : files.Writable path place := .inl ⟨c, hfound⟩
  have hwrite : files.writeAt what path s = .ok (files.put place (.file (.text s))) :=
    writeAt_eq_ok_iff.mpr ⟨place, hwritable, rfl⟩
  refine ⟨files.put place (.file (.text s)), ?_, (hwritable.put _).1⟩
  rw [writeDocument_eq]
  cases habove : path.parent with
  | none => exact hwrite
  | some above =>
    rw [Option.elim_some, makeDirectories_of_ready (hready above habove)]
    exact hwrite

theorem writeDocument_outline :
    (files.writeDocument what path s).map outline = files.outline.writeDocument what path "" := by
  rw [writeDocument_eq, writeDocument_eq]
  cases path.parent with
  | none => exact writeAt_outline
  | some above =>
    rw [Option.elim_some, Option.elim_some, ← makeDirectories_outline]
    cases files.makeDirectories above with
    | none => rfl
    | some made => exact writeAt_outline

end FileTree

section Output

open FileTree

variable {files after : FileTree} {now : Timestamp} {dir : Path} {n n' : Network}
  {plan plan' : List LaunchEntry}

/-- A text that leads to an entry by that name where it ends a path. -/
def IsName (name : String) : Prop :=
  '/' ∉ name.toList ∧ ¬ (name = "" ∨ name = ".") ∧ name ≠ ".."

instance (name : String) : Decidable (IsName name) := inferInstanceAs (Decidable (_ ∧ _))

theorem FileTree.Writable.getLast? {t : FileTree} {name : String} {place : Location}
    (h : t.Writable (dir.join name) place) (hname : IsName name) :
    place.getLast? = some name := by
  obtain ⟨hplain, hnamed, hup⟩ := hname
  obtain ⟨init, hinit⟩ := dir.parts_join hplain
  rcases h with ⟨old, hfound⟩ | hvacant
  · rw [resolve_eq_follow hfound nofun nofun, hinit] at hfound
    exact @getLast?_of_follow _ _ _ _ _ old false hnamed hup (.inl hfound)
  · rw [resolve_eq_follow hvacant nofun nofun, hinit] at hvacant
    exact @getLast?_of_follow _ _ _ _ _ .binary false hnamed hup (.inr hvacant)

/-- Files of different names have different places, even in trees that differ. -/
theorem FileTree.Writable.ne_of_name_ne {t t' : FileTree} {name name' : String}
    {place place' : Location} (h : t.Writable (dir.join name) place)
    (h' : t'.Writable (dir.join name') place') (hname : IsName name) (hname' : IsName name')
    (hne : name ≠ name') : place ≠ place' := by
  intro heq
  have hlast := h.getLast? hname
  rw [heq, h'.getLast? hname'] at hlast
  exact hne (Option.some.inj hlast).symm

/-- The three files of a network are there, and so are the directories above them. -/
structure Written (files : FileTree) (dir : Path) (n : Network) (plan : List LaunchEntry) :
    Prop where
  ready : files.Ready dir
  topology : files.Holds (OutputPaths.within dir).topology n.topology.text
  genesis : files.Holds (OutputPaths.within dir).genesis n.genesis.toJson.indented
  launchPlan : files.Holds (OutputPaths.within dir).launchPlan (LaunchEntry.planText plan)
  aboveTopology : files.Stands (OutputPaths.within dir).topology
  aboveGenesis : files.Stands (OutputPaths.within dir).genesis

/-- The three names differ, so no file overwrites another. -/
theorem writeOutput_eq_ok (h : writeOutput files dir n plan = (after, .ok ())) :
    Written after dir n plan := by
  unfold writeOutput at h
  dsimp only at h
  split at h
  case h_1 => cases h
  case h_2 made hmade =>
  split at h
  case h_1 => cases h
  case h_2 first hfirst =>
  split at h
  case h_1 => cases h
  case h_2 second hsecond =>
  split at h
  case h_1 => cases h
  case h_2 third hthird =>
  cases h
  obtain ⟨_, hready⟩ := makeDirectories_eq_some hmade
  obtain ⟨made₁, place₁, hmade₁, habove₁, hwritable₁, rfl⟩ := writeDocument_eq_ok hfirst
  obtain ⟨made₂, place₂, hmade₂, habove₂, hwritable₂, rfl⟩ := writeDocument_eq_ok hsecond
  obtain ⟨place₃, hwritable₃, rfl⟩ := write_eq_some_iff.mp hthird
  have hne₁₂ := hwritable₁.ne_of_name_ne hwritable₂ (by decide) (by decide) (by decide)
  have hne₁₃ := hwritable₁.ne_of_name_ne hwritable₃ (by decide) (by decide) (by decide)
  have hne₂₃ := hwritable₂.ne_of_name_ne hwritable₃ (by decide) (by decide) (by decide)
  obtain ⟨hgrown₁, hfound₁⟩ := hwritable₁.put (.text n.topology.text)
  obtain ⟨hgrown₂, hfound₂⟩ := hwritable₂.put (.text n.genesis.toJson.indented)
  obtain ⟨hgrown₃, hfound₃⟩ := hwritable₃.put (.text (LaunchEntry.planText plan))
  have hgrown₂₃ := hgrown₂.trans hgrown₃
  have hgrown₁₃ := hgrown₁.trans (hmade₂.outline.trans hgrown₂₃)
  have htopology := hwritable₃.put_ne (c := .text (LaunchEntry.planText plan)) hne₁₃
    (hwritable₂.put_ne (c := .text n.genesis.toJson.indented) hne₁₂ (hmade₂.resolve hfound₁))
  have hgenesis := hwritable₃.put_ne (c := .text (LaunchEntry.planText plan)) hne₂₃ hfound₂
  constructor
  case ready => exact hready.of_grown (hmade₁.outline.trans hgrown₁₃)
  case topology => exact ⟨place₁, htopology⟩
  case genesis => exact ⟨place₂, hgenesis⟩
  case launchPlan => exact ⟨place₃, hfound₃⟩
  case aboveTopology =>
    exact ⟨fun above habove => (habove₁ above habove).of_grown hgrown₁₃, place₁, _, htopology⟩
  case aboveGenesis =>
    exact ⟨fun above habove => (habove₂ above habove).of_grown hgrown₂₃, place₂, _, hgenesis⟩

/-- Output that was written can be written over. -/
theorem writeOutput_of_written (h : Written files dir n plan) (n' : Network)
    (plan' : List LaunchEntry) : (writeOutput files dir n' plan').2 = .ok () := by
  obtain ⟨first, hfirst, hgrown₁⟩ :=
    writeDocument_of_stands h.aboveTopology .topology n'.topology.text
  obtain ⟨second, hsecond, hgrown₂⟩ :=
    writeDocument_of_stands (h.aboveGenesis.of_grown hgrown₁) .genesis n'.genesis.toJson.indented
  obtain ⟨place, hplan⟩ := h.launchPlan
  obtain ⟨old, hold⟩ := resolve_file_of_grown (hgrown₁.trans hgrown₂) hplan
  have hthird := write_eq_some_iff.mpr ⟨place, .inl ⟨old, hold⟩,
    @rfl _ (second.put place (.file (.text (LaunchEntry.planText plan'))))⟩
  unfold writeOutput
  dsimp only
  rw [makeDirectories_of_ready h.ready]
  dsimp only
  rw [Topology.store, hfirst]
  dsimp only
  rw [Genesis.store, hsecond]
  dsimp only
  rw [hthird]

/-- The same steps on empty files. -/
def layOut (files : FileTree) (dir : Path) : Except FileFault Unit :=
  match files.makeDirectories dir with
  | none => .error (.noOutputDirectory dir)
  | some made =>
    match made.writeDocument .topology (OutputPaths.within dir).topology "" with
    | .error e => .error e
    | .ok first =>
      match first.writeDocument .genesis (OutputPaths.within dir).genesis "" with
      | .error e => .error e
      | .ok second =>
        match second.write (OutputPaths.within dir).launchPlan (.text "") with
        | none => .error (.unwritten .launchPlan (OutputPaths.within dir).launchPlan)
        | some _ => .ok ()

/-- Whether output can be written depends neither on the output nor on what files hold. -/
theorem writeOutput_eq_layOut : (writeOutput files dir n plan).2 = layOut files.outline dir := by
  unfold writeOutput layOut
  dsimp only
  rw [← makeDirectories_outline]
  cases files.makeDirectories dir with
  | none => rfl
  | some made =>
    rw [Option.map_some]
    dsimp only
    rw [Topology.store, ← writeDocument_outline (s := n.topology.text)]
    cases made.writeDocument .topology (OutputPaths.within dir).topology n.topology.text with
    | error e => rfl
    | ok first =>
      rw [ok_map]
      dsimp only
      rw [Genesis.store, ← writeDocument_outline (s := n.genesis.toJson.indented)]
      cases first.writeDocument .genesis (OutputPaths.within dir).genesis
          n.genesis.toJson.indented with
      | error e => rfl
      | ok second =>
        rw [ok_map]
        dsimp only
        rw [← write_outline (.text (LaunchEntry.planText plan))]
        cases second.write (OutputPaths.within dir).launchPlan
          (.text (LaunchEntry.planText plan)) <;> rfl

/-- What comes of a network and its plan, or of the failure to prepare them. -/
def deliver (files : FileTree) (dir : Path) :
    Except Failure (Network × List LaunchEntry) → FileTree × Except Failure OutputPaths
  | .error e => (files, .error e)
  | .ok (n, plan) =>
    match writeOutput files dir n plan with
    | (after, .error e) => (after, .error (.file e))
    | (after, .ok ()) => (after, .ok (OutputPaths.within dir))

theorem deliver_eq_ok_iff {prepared : Except Failure (Network × List LaunchEntry)}
    {paths : OutputPaths} : deliver files dir prepared = (after, .ok paths) ↔ ∃ n plan,
      prepared = .ok (n, plan) ∧ writeOutput files dir n plan = (after, .ok ()) ∧
        paths = OutputPaths.within dir := by
  cases prepared with
  | error e =>
    constructor
    · intro h
      cases h
    · intro h
      obtain ⟨_, _, hprepared, _⟩ := h
      cases hprepared
  | ok made =>
    obtain ⟨n, plan⟩ := made
    unfold deliver
    dsimp only
    constructor
    · intro h
      split at h
      · cases h
      · rename_i hwrite
        cases h
        exact ⟨n, plan, rfl, hwrite, rfl⟩
    · intro h
      obtain ⟨_, _, hprepared, hwrite, rfl⟩ := h
      cases hprepared
      rw [hwrite]

theorem prepare_eq_ok_iff {c : Config} : (prepare c files now dir).result = .ok (n, plan) ↔
    (build c files now .development ()).result = .ok n ∧
      (n.launchPlan (c.launchOptions dir)).value = .ok plan := by
  unfold prepare
  simp only [Run.result_bind_eq_ok_iff, Run.result_ofLogged, mapError_eq_ok_iff,
    Run.result_pure, Except.ok.injEq, Prod.mk.injEq]
  constructor
  · intro h
    obtain ⟨n, hn, plan, hplan, rfl, rfl⟩ := h
    exact ⟨hn, hplan⟩
  · intro h
    exact ⟨n, h.1, plan, h.2, rfl, rfl⟩

/-- Generating delivers what was prepared. -/
theorem value_generate (c : Config) (files : FileTree) (now : Timestamp) (dir : Path) :
    (generate c files now dir).value = deliver files dir (prepare c files now dir).result := by
  unfold generate
  rw [Logged.value_bind]
  show _ = deliver files dir (prepare c files now dir).run.value
  cases (prepare c files now dir).run.value with
  | error e => rfl
  | ok made =>
    obtain ⟨n, plan⟩ := made
    unfold deliver
    dsimp only
    rcases writeOutput files dir n plan with ⟨after, _ | _⟩ <;> rfl

/-- A network that was generated has been built, has a launch plan, and has been written. -/
theorem generate_eq_ok_iff {c : Config} {paths : OutputPaths} :
    (generate c files now dir).value = (after, .ok paths) ↔ ∃ n plan,
      (build c files now .development ()).result = .ok n ∧
      (n.launchPlan (c.launchOptions dir)).value = .ok plan ∧
      writeOutput files dir n plan = (after, .ok ()) ∧ paths = OutputPaths.within dir := by
  rw [value_generate, deliver_eq_ok_iff]
  simp only [prepare_eq_ok_iff, and_assoc]

end Output

end Testnet
