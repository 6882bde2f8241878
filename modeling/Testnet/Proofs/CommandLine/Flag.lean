import Testnet.CommandLine.Request

/-!
# The flag for a dry run

The flag stands for itself: it neither is the value of another option nor changes how the others are
read. So wherever it is put between two options, what is asked for is the same, but for a dry run.
-/

namespace Testnet.CommandLine

/-- The argument that asks for a dry run. -/
def flag : String := "--dry-run"

namespace Invocation

/-- The same invocation for a dry run. -/
def dry (i : Invocation) : Invocation := { i with dryRun := true }

theorem set?_dry (i : Invocation) (s : Setting) (v : String) :
    i.dry.set? s v = (i.set? s v).map dry := by
  cases s <;> simp only [set?, dry, Option.map_map] <;> rfl

theorem dryRun_of_set? {i j : Invocation} {s : Setting} {v : String} (h : i.set? s v = some j) :
    j.dryRun = i.dryRun := by
  cases s <;> simp only [set?, Option.map_map, Option.map_eq_some_iff] at h <;>
    obtain ⟨_, _, rfl⟩ := h <;> rfl

end Invocation

/-- The same request, for a dry run if it is one to run. -/
def Request.dry : Request → Request
  | run i => run i.dry
  | other => other

theorem Request.dry_of_ne_run {r : Request} (h : ∀ i, r ≠ run i) : r.dry = r := by
  cases r with
  | run i => exact absurd rfl (h i)
  | _ => rfl

section Step

theorem Argument.ofList_flag : Argument.ofList flag.toList = .long "dry-run".toList none := by
  decide +kernel

theorem Argument.eq_of_ofList {cs name : List Char} (h : Argument.ofList cs = .long name none) :
    cs = '-' :: '-' :: name := by
  unfold Argument.ofList at h
  split at h
  case h_2 cs _ =>
    dsimp only at h
    split at h
    case isTrue => cases h
    case isFalse hlength =>
      cases h
      have hwhole := (List.takeWhile_prefix (l := cs) (· != '=')).eq_of_length_le (by omega)
      rw [hwhole]
  all_goals cases h

theorem Step.eq_of_dryRun {a : Argument} (h : Step.ofArgument a = .dryRun) :
    a = .long "dry-run".toList none := by
  unfold Step.ofArgument at h
  split at h
  case h_4 name value =>
    split at h
    case h_3 hname => rw [← hname, String.toList_ofList]
    case h_4 => split at h <;> cases h
    all_goals cases h
  all_goals repeat' split at h
  all_goals cases h

theorem Step.ne_run {a : Argument} {i : Invocation} : Step.ofArgument a ≠ .done (.run i) := by
  unfold Step.ofArgument
  repeat' split
  all_goals simp

/-- No other argument asks for a dry run. -/
theorem eq_flag {a : String} (h : Step.ofArgument (Argument.ofList a.toList) = .dryRun) :
    a = flag :=
  String.toList_inj.mp (Argument.eq_of_ofList (Step.eq_of_dryRun h))

end Step

/-- Reading on after an option with a value. -/
def readOn (i : Invocation) (s : Setting) (v : String) (rest : List String) : Request :=
  match i.set? s v with
  | some j => readFrom j rest
  | none => .misuse

theorem readOn_of_set? {i j : Invocation} {s : Setting} {v : String} (h : i.set? s v = some j)
    (rest : List String) : readOn i s v rest = readFrom j rest := by
  rw [readOn, h]

theorem exists_of_readOn {i : Invocation} {s : Setting} {v : String} {rest : List String}
    (h : readOn i s v rest ≠ .misuse) : ∃ j, i.set? s v = some j ∧ readFrom j rest ≠ .misuse := by
  rw [readOn] at h
  split at h
  case h_1 j hset => exact ⟨j, hset, h⟩
  case h_2 => exact absurd rfl h

/-- All that an argument can do where it is read, whatever was taken before and comes after it. -/
inductive Effect (a : String) : Prop where
  /-- No options come after it. -/
  | stop (h : ∀ i rest, readFrom i (a :: rest) = if rest.isEmpty then .run i else .misuse)
  /-- It decides what is asked for. -/
  | ends (r : Request) (hr : ∀ i, r ≠ .run i) (h : ∀ i rest, readFrom i (a :: rest) = r)
  | flag (h : a = flag)
  | attached (s : Setting) (v : String) (h : ∀ i rest, readFrom i (a :: rest) = readOn i s v rest)
  /-- It takes the next argument as its value. -/
  | separate (s : Setting) (hlast : ∀ i, readFrom i [a] = .misuse)
      (h : ∀ i v rest, readFrom i (a :: v :: rest) =
        if Argument.ofList v.toList ≠ .plain then .misuse else readOn i s v rest)

theorem readFrom_stop {i : Invocation} {a : String} (rest : List String)
    (h : Argument.ofList a.toList = .stop) :
    readFrom i (a :: rest) = if rest.isEmpty then .run i else .misuse := by
  rw [readFrom.eq_def]
  dsimp only
  rw [h]

theorem readFrom_cons {i : Invocation} {a : String} (rest : List String)
    (h : Argument.ofList a.toList ≠ .stop) : readFrom i (a :: rest) =
      match Step.ofArgument (Argument.ofList a.toList) with
      | .done r => r
      | .dryRun => if i.dryRun then .misuse else readFrom i.dry rest
      | .set s (some v) => readOn i s (String.ofList v) rest
      | .set s none =>
        match rest with
        | [] => .misuse
        | v :: rest =>
          if Argument.ofList v.toList ≠ .plain then .misuse else readOn i s v rest := by
  rw [readFrom.eq_def]
  dsimp only
  split
  case h_1 hstop => exact absurd hstop h
  case h_2 => rfl

theorem readFrom_flag (i : Invocation) (rest : List String) :
    readFrom i (flag :: rest) = if i.dryRun then .misuse else readFrom i.dry rest := by
  have hstop : Argument.ofList flag.toList ≠ .stop := by
    rw [Argument.ofList_flag]
    nofun
  have hstep : Step.ofArgument (Argument.ofList flag.toList) = .dryRun := by
    rw [Argument.ofList_flag]
    rfl
  rw [readFrom_cons rest hstop, hstep]

/-- Every argument has one of these effects. -/
theorem effect (a : String) : Effect a := by
  by_cases hstop : Argument.ofList a.toList = .stop
  · exact .stop fun i rest => readFrom_stop rest hstop
  cases hstep : Step.ofArgument (Argument.ofList a.toList) with
  | done r =>
    refine .ends r (fun i hr => Step.ne_run (hr ▸ hstep)) fun i rest => ?_
    rw [readFrom_cons rest hstop, hstep]
  | dryRun => exact .flag (eq_flag hstep)
  | set s value =>
    cases value with
    | some v =>
      refine .attached s (String.ofList v) fun i rest => ?_
      rw [readFrom_cons rest hstop, hstep]
    | none =>
      refine .separate s (fun i => ?_) fun i v rest => ?_
      · rw [readFrom_cons [] hstop, hstep]
      · rw [readFrom_cons (v :: rest) hstop, hstep]

/-- With the flag taken before, arguments without it are read as the same request, but for a dry
run. -/
def Dries (arguments : List String) (i : Invocation) : Prop :=
  readFrom i.dry arguments = (readFrom i arguments).dry ∧
    ∀ j, readFrom i arguments = .run j → j.dryRun = false

theorem dries_of_ne_run {arguments : List String} {i : Invocation} {r : Request}
    (hr : ∀ j, r ≠ .run j) (hdry : readFrom i.dry arguments = r) (h : readFrom i arguments = r) :
    Dries arguments i := by
  refine ⟨?_, fun j hj => absurd (h.symm.trans hj) (hr j)⟩
  rw [hdry, h, Request.dry_of_ne_run hr]

theorem dries_of_misuse {arguments : List String} {i : Invocation}
    (hdry : readFrom i.dry arguments = .misuse) (h : readFrom i arguments = .misuse) :
    Dries arguments i := dries_of_ne_run (fun _ hr => by cases hr) hdry h

/-- What is read on after an option with a value is read in the same way. -/
theorem dries_of_readOn {arguments rest : List String} {i : Invocation} {s : Setting} {v : String}
    (hread : ∀ i, readFrom i arguments = readOn i s v rest)
    (hrest : ∀ j, i.set? s v = some j → Dries rest j) : Dries arguments i := by
  have hdry := hread i.dry
  have hplain := hread i
  rw [readOn, Invocation.set?_dry] at hdry
  rw [readOn] at hplain
  cases hset : i.set? s v with
  | none =>
    rw [hset] at hdry hplain
    exact dries_of_misuse hdry hplain
  | some j =>
    rw [hset] at hdry hplain
    obtain ⟨hsame, hrun⟩ := hrest j hset
    exact ⟨by rw [hdry, hplain]; exact hsame, fun k hk => hrun k (hplain.symm.trans hk)⟩

theorem dries {arguments : List String} {i : Invocation} (hi : i.dryRun = false)
    (hflag : flag ∉ arguments) : Dries arguments i := by
  -- A value is taken together with its option, so what is left may be shorter by two.
  induction hlength : arguments.length using Nat.strongRecOn generalizing arguments i with
  | _ n ih =>
  subst hlength
  cases arguments with
  | nil =>
    refine ⟨rfl, fun j hj => ?_⟩
    cases hj
    exact hi
  | cons a rest =>
  have hset : ∀ (s : Setting) (v : String) (j : Invocation), i.set? s v = some j →
      j.dryRun = false := fun s v j hj => (Invocation.dryRun_of_set? hj).trans hi
  cases effect a with
  | stop h =>
    cases rest with
    | nil =>
      refine ⟨by rw [h, h]; rfl, fun j hj => ?_⟩
      cases (h i []).symm.trans hj
      exact hi
    | cons b rest => exact dries_of_misuse (h i.dry _) (h i _)
  | ends r hr h => exact dries_of_ne_run hr (h i.dry rest) (h i rest)
  | flag h => exact absurd h (List.ne_of_not_mem_cons hflag).symm
  | attached s v h =>
    refine dries_of_readOn (fun i => h i rest) fun j hj => ?_
    exact ih _ (Nat.lt_succ_self _) (hset s v j hj) (List.not_mem_of_not_mem_cons hflag) rfl
  | separate s hlast h =>
    cases rest with
    | nil => exact dries_of_misuse (hlast i.dry) (hlast i)
    | cons v rest =>
      by_cases hv : Argument.ofList v.toList = .plain
      · have hread : ∀ i, readFrom i (a :: v :: rest) = readOn i s v rest := fun i => by
          rw [h, if_neg (not_not_intro hv)]
        refine dries_of_readOn hread fun j hj => ?_
        exact ih _ (by simp only [List.length_cons]; omega) (hset s v j hj)
          (fun hmem => hflag (List.mem_cons_of_mem _ (List.mem_cons_of_mem _ hmem))) rfl
      · have hread : ∀ i, readFrom i (a :: v :: rest) = .misuse := fun i => by
          rw [h, if_pos hv]
        exact dries_of_misuse (hread i.dry) (hread i)

/-- What arguments come to, whatever follows them: they are taken, without the flag, or they decide
what is asked for. -/
def Settles (before : List String) (i : Invocation) : Prop :=
  (∃ j, j.dryRun = false ∧ ∀ rest, readFrom i (before ++ rest) = readFrom j rest) ∨
  ∃ r, (∀ j, r ≠ .run j) ∧ ∀ rest, readFrom i (before ++ rest) = r

theorem Settles.of_taken {front before : List String} {i j : Invocation} (h : Settles before j)
    (hfront : ∀ rest, readFrom i (front ++ rest) = readFrom j rest) :
    Settles (front ++ before) i := by
  obtain ⟨k, hk, hsame⟩ | ⟨r, hr, hsame⟩ := h
  · exact .inl ⟨k, hk, fun rest => by rw [List.append_assoc, hfront, hsame]⟩
  · exact .inr ⟨r, hr, fun rest => by rw [List.append_assoc, hfront, hsame]⟩

/-- Where the flag can be put, the arguments before it are settled. -/
theorem settles {i : Invocation} {before : List String}
    (h : readFrom i (before ++ [flag]) ≠ .misuse) : Settles before i := by
  have hplain : Argument.ofList flag.toList ≠ .plain := by
    rw [Argument.ofList_flag]
    nofun
  induction hlength : before.length using Nat.strongRecOn generalizing before i with
  | _ n ih =>
  subst hlength
  cases before with
  | nil =>
    refine .inl ⟨i, Bool.eq_false_iff.mpr fun hi => h ?_, fun _ => rfl⟩
    rw [List.nil_append, readFrom_flag, if_pos hi]
  | cons a rest =>
  rw [List.cons_append] at h
  cases effect a with
  | stop hread =>
    rw [hread, if_neg (by simp)] at h
    exact absurd rfl h
  | ends r hr hread => exact .inr ⟨r, hr, fun more => hread i (rest ++ more)⟩
  | flag ha =>
    subst ha
    rw [readFrom_flag] at h
    split at h
    case isTrue => exact absurd rfl h
    case isFalse hi =>
      have hrest : Settles rest i.dry := ih _ (Nat.lt_succ_self _) h rfl
      exact @Settles.of_taken [flag] _ _ _ hrest fun more => by
        rw [List.singleton_append, readFrom_flag, if_neg hi]
  | attached s v hread =>
    rw [hread] at h
    obtain ⟨j, hset, h⟩ := exists_of_readOn h
    have hrest : Settles rest j := ih _ (Nat.lt_succ_self _) h rfl
    exact @Settles.of_taken [a] _ _ _ hrest fun more => by
      rw [List.singleton_append, hread, readOn_of_set? hset]
  | separate s hlast hread =>
    cases rest with
    | nil =>
      rw [List.nil_append, hread, if_pos hplain] at h
      exact absurd rfl h
    | cons v rest =>
      rw [List.cons_append, hread] at h
      split at h
      case isTrue => exact absurd rfl h
      case isFalse hv =>
        obtain ⟨j, hset, h⟩ := exists_of_readOn h
        have hrest : Settles rest j := ih _ (by simp only [List.length_cons]; omega) h rfl
        exact @Settles.of_taken [a, v] _ _ _ hrest fun more => by
          rw [List.cons_append, List.singleton_append, hread, if_neg hv, readOn_of_set? hset]

/-- Arguments, and the same with the flag at a place where it can be taken: what comes up to it is
no misuse, and it does not come again. -/
def Flagged (arguments flagged : List String) : Prop :=
  ∃ before after, arguments = before ++ after ∧ flagged = before ++ flag :: after ∧
    read (before ++ [flag]) ≠ .misuse ∧ flag ∉ after

/-- The flag may come first. -/
theorem flagged_cons {arguments : List String} (h : flag ∉ arguments) :
    Flagged arguments (flag :: arguments) := by
  refine ⟨[], arguments, rfl, rfl, ?_, h⟩
  rw [List.nil_append, read, readFrom_flag]
  nofun

/-- With the flag the same is asked for, but for a dry run. -/
theorem Flagged.read {arguments flagged : List String} (h : Flagged arguments flagged) :
    CommandLine.read flagged = (CommandLine.read arguments).dry ∧
      ∀ i, CommandLine.read arguments = .run i → i.dryRun = false := by
  obtain ⟨before, after, rfl, rfl, hbefore, hafter⟩ := h
  rw [CommandLine.read, CommandLine.read]
  obtain ⟨j, hj, hsame⟩ | ⟨r, hr, hsame⟩ := settles hbefore
  · rw [hsame, hsame, readFrom_flag, if_neg (by rw [hj]; decide)]
    exact dries hj hafter
  · rw [hsame, hsame, Request.dry_of_ne_run hr]
    exact ⟨rfl, fun i hi => absurd hi (hr i)⟩

end Testnet.CommandLine
