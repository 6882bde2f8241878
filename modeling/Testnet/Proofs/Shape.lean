import Mathlib.Data.List.TakeWhile
import Testnet.Shape

/-!
# Names of shapes

The names of the rules are few. A text that ends in another letter than they do is the path of a
file, if there is one, as long as there are no blanks around it.
-/

namespace Testnet

namespace Text

theorem length_trimList_le (cs : List Char) :
    (trimList cs).length ≤ (cs.dropWhile isBlank).length := by
  unfold trimList
  rw [List.length_reverse]
  have hdrop := (List.dropWhile_sublist isBlank (l := (cs.dropWhile isBlank).reverse)).length_le
  rw [List.length_reverse] at hdrop
  exact hdrop

/-- A text without blanks around it does not begin with one. -/
theorem isBlank_head_of_trimList {c : Char} {cs : List Char} (h : trimList (c :: cs) = c :: cs) :
    isBlank c = false := by
  cases hc : isBlank c with
  | false => rfl
  | true =>
    have hlength := length_trimList_le (c :: cs)
    rw [h, List.dropWhile_cons_of_pos hc, List.length_cons] at hlength
    have hdrop := (List.dropWhile_sublist isBlank (l := cs)).length_le
    omega

theorem trimList_of_ends {c d : Char} {cs ds : List Char} (hc : isBlank c = false)
    (hd : isBlank d = false) (h : c :: cs = ds ++ [d]) : trimList (c :: cs) = c :: cs := by
  unfold trimList
  rw [List.dropWhile_cons_of_neg (by simp [hc]), h, List.reverse_append, List.reverse_singleton,
    List.singleton_append, List.dropWhile_cons_of_neg (by simp [hd]), List.reverse_cons,
    List.reverse_reverse]

/-- What is nothing without the blanks around it is all blanks. -/
theorem trimList_eq_nil_iff {cs : List Char} :
    trimList cs = [] ↔ ∀ c ∈ cs, isBlank c = true := by
  unfold trimList
  rw [List.reverse_eq_nil_iff, List.dropWhile_eq_nil_iff]
  simp only [List.mem_reverse]
  constructor
  · intro h c hc
    rw [← List.takeWhile_append_dropWhile (p := isBlank) (l := cs), List.mem_append] at hc
    rcases hc with hfront | hrest
    · exact List.mem_takeWhile_imp hfront
    · exact h c hrest
  · intro h c hc
    exact h c ((List.dropWhile_sublist isBlank).subset hc)

theorem trim_eq_empty_iff {s : String} :
    trim s = "" ↔ ∀ c ∈ s.toList, isBlank c = true := by
  rw [trim, ← trimList_eq_nil_iff, ← String.toList_eq_nil_iff, String.toList_ofList]

end Text

namespace Path

/-- A path inside a directory begins with the directory and ends in the name. -/
theorem toList_join (dir : Path) {name : String} (h : name.toList.head? ≠ some '/') :
    ∃ slash, (dir.text.toList = [] → slash = []) ∧
      (dir.join name).text.toList = dir.text.toList ++ (slash ++ name.toList) := by
  unfold join
  rw [if_neg h]
  split
  case isTrue =>
    exact ⟨[], fun _ => rfl, String.toList_append⟩
  case isFalse hbase =>
    refine ⟨['/'], fun hempty => ?_, ?_⟩
    · rw [Bool.or_eq_true, not_or, String.isEmpty_iff] at hbase
      exact absurd (String.toList_eq_nil_iff.mp hempty) hbase.1
    · show (dir.text ++ "/" ++ name).toList = _
      rw [String.toList_append, String.toList_append, List.append_assoc]
      rfl

/-- A name that stands for itself has no blanks around it, also behind a directory without them. -/
theorem trim_join {dir : Path} {name : String} {c d : Char} {cs ds : List Char}
    (hdir : Text.trim dir.text = dir.text) (hfirst : name.toList = c :: cs) (hslash : c ≠ '/')
    (hc : Text.isBlank c = false) (hlast : name.toList = ds ++ [d]) (hd : Text.isBlank d = false) :
    Text.trim (dir.join name).text = (dir.join name).text := by
  have hhead : name.toList.head? ≠ some '/' := by
    rw [hfirst]
    simpa using hslash
  have htrim : Text.trimList dir.text.toList = dir.text.toList := by
    have hlist := congrArg String.toList hdir
    rwa [Text.trim, String.toList_ofList] at hlist
  obtain ⟨slash, hempty, hjoin⟩ := dir.toList_join hhead
  have hlist : Text.trimList (dir.join name).text.toList = (dir.join name).text.toList := by
    have hend : (dir.join name).text.toList = dir.text.toList ++ (slash ++ ds) ++ [d] := by
      rw [hjoin, hlast, List.append_assoc, List.append_assoc]
    cases hchars : dir.text.toList with
    | nil =>
      rw [hchars, hempty hchars, List.nil_append, List.nil_append] at hjoin
      rw [hjoin, hfirst]
      exact Text.trimList_of_ends hc hd (hfirst.symm.trans hlast)
    | cons e es =>
      rw [hchars] at htrim hjoin hend
      rw [hjoin, List.cons_append]
      exact Text.trimList_of_ends (Text.isBlank_head_of_trimList htrim) hd
        (by rw [← List.cons_append, ← hjoin, hend])
  rw [Text.trim, hlist, String.ofList_toList]

end Path

namespace Shape

/-- No rule has a name that ends in `n`. -/
theorem ofRule?_of_last {name : String} (h : name.toList.getLast? = some 'n') :
    ofRule? name = none := by
  have hlower : (name.toList.map Char.toLower).getLast? = some 'n' := by
    rw [List.getLast?_map, h]
    rfl
  have hne : ∀ rule : String, rule.toList.getLast? ≠ some 'n' →
      String.ofList (name.toList.map Char.toLower) ≠ rule := by
    intro rule hrule heq
    rw [← heq, String.toList_ofList] at hrule
    exact hrule hlower
  unfold ofRule?
  split
  case h_1 heq => exact absurd heq (hne _ (by decide))
  case h_2 heq => exact absurd heq (hne _ (by decide))
  case h_3 heq => exact absurd heq (hne _ (by decide))
  case h_4 heq => exact absurd heq (hne _ (by decide))
  case h_5 heq => exact absurd heq (hne _ (by decide))
  case h_6 => rfl

/-- The path of a file stands for the file. -/
theorem resolve_of_isFile {files : FileTree} {path : Path} (htrim : Text.trim path.text = path.text)
    (hlast : path.text.toList.getLast? = some 'n') (hfile : files.isFile path = true) :
    resolve files path.text = .ok (custom path) := by
  unfold resolve
  dsimp only
  rw [htrim, ofRule?_of_last hlast]
  exact if_pos hfile

/-- A bridge needs two producing nodes to part and a node between them. -/
theorem check_bridge_eq_ok_iff {p : Plan} : (bridge.check p).value = .ok () ↔
    2 ≤ p.producingRegular ∧ p.producerNodes < p.totalNodes := by
  show (if _ then _ else _) = _ ↔ _
  split
  · exact ⟨nofun, fun h => by omega⟩
  split
  · exact ⟨nofun, fun h => by omega⟩
  · exact ⟨fun _ => by omega, fun _ => rfl⟩

end Shape

end Testnet
