import Testnet.Path
import Testnet.Text.Blank

/-!
# Launch options

Arguments that do not follow from the network: some for every node, some for the node of an index.
-/

namespace Testnet

/-- Arguments by node index, in ascending order of the indices. -/
structure SpecificArguments where
  entries : List (Int32 × String)
  ascending : entries.Pairwise fun e e' => e.1 < e'.1
deriving DecidableEq, Repr

namespace SpecificArguments

def empty : SpecificArguments := ⟨[], .nil⟩

def put (index : Int32) (arguments : String) : List (Int32 × String) → List (Int32 × String)
  | [] => [(index, arguments)]
  | (i, a) :: rest =>
    if index = i then (index, arguments) :: rest
    else if index < i then (index, arguments) :: (i, a) :: rest
    else (i, a) :: put index arguments rest

theorem index_of_mem_put {index : Int32} {arguments : String} {entries : List (Int32 × String)}
    {e : Int32 × String} (h : e ∈ put index arguments entries) : e.1 = index ∨ e ∈ entries := by
  induction entries with
  | nil =>
    rw [put, List.mem_singleton] at h
    exact .inl (congrArg Prod.fst h)
  | cons first rest ih =>
    unfold put at h
    split at h
    · rcases List.mem_cons.mp h with rfl | h
      · exact .inl rfl
      · exact .inr (List.mem_cons_of_mem _ h)
    split at h
    · rcases List.mem_cons.mp h with rfl | h
      · exact .inl rfl
      · exact .inr h
    · rcases List.mem_cons.mp h with rfl | h
      · exact .inr (List.mem_cons_self ..)
      · exact (ih h).imp id (List.mem_cons_of_mem _)

theorem pairwise_put {index : Int32} {arguments : String} {entries : List (Int32 × String)}
    (h : entries.Pairwise fun e e' => e.1 < e'.1) :
    (put index arguments entries).Pairwise fun e e' => e.1 < e'.1 := by
  induction entries with
  | nil => exact List.pairwise_singleton ..
  | cons first rest ih =>
    obtain ⟨hfirst, hrest⟩ := List.pairwise_cons.mp h
    unfold put
    split
    case isTrue heq =>
      refine List.pairwise_cons.mpr ⟨fun e he => ?_, hrest⟩
      exact heq ▸ hfirst e he
    split
    case isTrue hlt =>
      refine List.pairwise_cons.mpr ⟨List.forall_mem_cons.mpr ⟨hlt, fun e he => ?_⟩, h⟩
      exact Int32.lt_trans hlt (hfirst e he)
    case isFalse hne hge =>
      refine List.pairwise_cons.mpr ⟨fun e he => ?_, ih hrest⟩
      rcases index_of_mem_put he with heq | he
      · have hle := Int32.not_lt.mp hge
        exact heq ▸ Int32.lt_of_le_of_ne hle (Ne.symm hne)
      · exact hfirst e he

/-- The arguments of an index replaced. -/
def insert (s : SpecificArguments) (index : Int32) (arguments : String) : SpecificArguments :=
  ⟨put index arguments s.entries, pairwise_put s.ascending⟩

def ofList (entries : List (Int32 × String)) : SpecificArguments :=
  entries.foldl (fun s e => s.insert e.1 e.2) empty

def get? (s : SpecificArguments) (index : Int32) : Option String := s.entries.lookup index

end SpecificArguments

structure LaunchOptions where
  /-- Where the composed genesis is written. -/
  genesisPath : Path
  extra : Option String
  specific : SpecificArguments
deriving DecidableEq, Repr

/-- The arguments for all nodes and then those for one index, which thus stand last. -/
def mergeArguments (extra : Option String) (specific : SpecificArguments) (index : Int32) :
    List String :=
  (extra.map Text.words).getD [] ++ ((specific.get? index).map Text.words).getD []

end Testnet
