import Testnet.Json.Raw
import Testnet.Proofs.Json.Literal

/-!
# Reading what was written

An indented text is cut into the tokens of the value that was written, and the tokens are put
together again. What holds between two characters is that the run being read, if any, can be closed:
everything after a number or a word begins with a character that ends it.
-/

namespace Testnet.Json

namespace Number

/-- The literal that a number is written as, if it is a whole one. -/
def literal : Number → Literal
  | .whole n => .ofInt n
  | .double .. => .ofInt 0

end Number

namespace Value

mutual

/-- Whether all numbers in a value are whole ones. -/
def IsWhole : Value → Prop
  | .number (.double ..) => False
  | .array vs => AreWhole vs
  | .object fields => FieldsWhole fields
  | _ => True

def AreWhole : List Value → Prop
  | [] => True
  | v :: vs => IsWhole v ∧ AreWhole vs

def FieldsWhole : List (String × Value) → Prop
  | [] => True
  | (_, v) :: fields => IsWhole v ∧ FieldsWhole fields

end

mutual

/-- The tokens of a value as it is written. -/
def tokens : Value → List Token
  | .null => [.null]
  | .bool b => [.bool b]
  | .number n => [.number n.literal]
  | .string s => [.string (some s)]
  | .array [] => [.openBracket, .closeBracket]
  | .array (v :: vs) => .openBracket :: (tokens v ++ itemTokens vs ++ [.closeBracket])
  | .object [] => [.openBrace, .closeBrace]
  | .object ((k, v) :: fields) =>
    .openBrace :: .string (some k) :: .colon :: (tokens v ++ fieldTokens fields ++ [.closeBrace])

/-- The tokens of the items after the first. -/
def itemTokens : List Value → List Token
  | [] => []
  | v :: vs => .comma :: (tokens v ++ itemTokens vs)

def fieldTokens : List (String × Value) → List Token
  | [] => []
  | (k, v) :: fields => .comma :: .string (some k) :: .colon :: (tokens v ++ fieldTokens fields)

end

mutual

/-- What the text of a value says. -/
def raw : Value → Raw
  | .null => .null
  | .bool b => .bool b
  | .number n => .number n.literal
  | .string s => .string (some s)
  | .array vs => .array (rawItems vs)
  | .object fields => .object (rawFields fields)

def rawItems : List Value → List Raw
  | [] => []
  | v :: vs => raw v :: rawItems vs

def rawFields : List (String × Value) → List (Option String × Raw)
  | [] => []
  | (k, v) :: fields => (some k, raw v) :: rawFields fields

end

theorem areWhole_iff {vs : List Value} : AreWhole vs ↔ ∀ v ∈ vs, v.IsWhole := by
  induction vs with
  | nil => simp [AreWhole]
  | cons v vs ih => rw [AreWhole, ih, List.forall_mem_cons]

theorem fieldsWhole_iff {fields : List (String × Value)} :
    FieldsWhole fields ↔ ∀ f ∈ fields, f.2.IsWhole := by
  induction fields with
  | nil => simp [FieldsWhole]
  | cons f fields ih =>
    obtain ⟨k, v⟩ := f
    rw [FieldsWhole, ih, List.forall_mem_cons]

theorem fieldsWhole_append {first second : List (String × Value)} :
    FieldsWhole (first ++ second) ↔ FieldsWhole first ∧ FieldsWhole second := by
  rw [fieldsWhole_iff, fieldsWhole_iff, fieldsWhole_iff, List.forall_mem_append]

theorem fieldsWhole_optional {α : Type} {key : String} {g : α → Value} {a? : Option α}
    (h : ∀ a, (g a).IsWhole) : FieldsWhole (optional key (a?.map g)) := by
  cases a? with
  | none => exact trivial
  | some a => exact ⟨h a, trivial⟩

theorem isWhole_array {α : Type} {g : α → Value} {as : List α} (h : ∀ a ∈ as, (g a).IsWhole) :
    (array (as.map g)).IsWhole := by
  apply areWhole_iff.mpr
  intro v hv
  obtain ⟨a, ha, rfl⟩ := List.mem_map.mp hv
  exact h a ha

theorem isWhole_ofStrings (ss : List String) : (ofStrings ss).IsWhole :=
  isWhole_array fun _ _ => trivial

theorem rawItems_eq_map (vs : List Value) : rawItems vs = vs.map raw := by
  induction vs with
  | nil => rfl
  | cons v vs ih => rw [rawItems, ih, List.map_cons]

theorem rawFields_eq_map (fields : List (String × Value)) :
    rawFields fields = fields.map fun f => (some f.1, f.2.raw) := by
  induction fields with
  | nil => rfl
  | cons f fields ih =>
    obtain ⟨k, v⟩ := f
    rw [rawFields, ih, List.map_cons]

end Value

namespace Lexer

/-- The state after some characters. -/
def run (l : Lexer) (cs : List Char) : Option Lexer := cs.foldlM step l

theorem run_cons (l : Lexer) (c : Char) (cs : List Char) :
    l.run (c :: cs) = (l.step c).bind fun l' => l'.run cs := List.foldlM_cons

variable {l : Lexer} {done : List Token} {c : Char} {cs : List Char}

/-- A character that neither a number nor a word goes on with ends what was being read. -/
theorem step_of_close (h : l.close? = some done) (hnumber : isNumberChar c = false)
    (hword : c.isAlpha = false) : l.step c = begin done c := by
  obtain ⟨mode, before⟩ := l
  cases mode with
  | gap =>
    cases h
    rfl
  | string p => cases h
  | escape p => cases h
  | unit p digits value => cases h
  | number chars =>
    simp only [step, hnumber, Bool.false_eq_true, if_false, h, Option.bind_some]
  | word chars =>
    simp only [step, hword, Bool.false_eq_true, if_false, h, Option.bind_some]

theorem run_cons_of_close (h : l.close? = some done) (hnumber : isNumberChar c = false)
    (hword : c.isAlpha = false) {next : Lexer} (hbegin : begin done c = some next) :
    l.run (c :: cs) = next.run cs := by
  rw [run_cons, step_of_close h hnumber hword, hbegin, Option.bind_some]

theorem run_blanks (n : Nat) : run ⟨.gap, done⟩ (List.replicate n ' ' ++ cs) =
    run ⟨.gap, done⟩ cs := by
  induction n with
  | zero => rfl
  | succ n ih =>
    rw [List.replicate_succ, List.cons_append]
    exact (run_cons_of_close rfl (by decide) (by decide) rfl).trans ih

theorem run_newLine (h : l.close? = some done) (depth : Nat) :
    l.run (newLine depth ++ cs) = run ⟨.gap, done⟩ cs := by
  rw [newLine, List.cons_append, run_cons_of_close h (by decide) (by decide) rfl]
  exact run_blanks (2 * depth)

/-- Four digits after the letter make a code unit. -/
theorem run_unit {p : PartialString} {a b e f : Char} {i j m n : Nat} (ha : hexValue? a = some i)
    (hb : hexValue? b = some j) (he : hexValue? e = some m) (hf : hexValue? f = some n) :
    run ⟨.escape p, done⟩ ('u' :: a :: b :: e :: f :: cs) =
      run ⟨.string (p.pushUnit (16 * (16 * (16 * (16 * 0 + i) + j) + m) + n)), done⟩ cs := by
  have hunit : run ⟨.escape p, done⟩ ('u' :: a :: b :: e :: f :: cs) =
      run ⟨.unit p 4 0, done⟩ (a :: b :: e :: f :: cs) := rfl
  have hdigit : ∀ (k v d : Nat) (x : Char) (rest : List Char), hexValue? x = some d → 1 < k →
      run ⟨.unit p k v, done⟩ (x :: rest) = run ⟨.unit p (k - 1) (16 * v + d), done⟩ rest := by
    intro k v d x rest hx hk
    have hstep : step ⟨.unit p k v, done⟩ x = some ⟨.unit p (k - 1) (16 * v + d), done⟩ := by
      simp only [step, hx, Option.map_some, Nat.not_le.mpr hk, if_false]
    rw [run_cons, hstep, Option.bind_some]
  rw [hunit, hdigit 4 _ i a _ ha (by decide), hdigit 3 _ j b _ hb (by decide),
    hdigit 2 _ m e _ he (by decide), run_cons]
  simp only [step, hf, Option.map_some, Nat.le_refl, if_true, Option.bind_some]

/-- A code unit that is no surrogate is a character. -/
theorem pushUnit_of_low {before : List Char} {c : Char} (hc : c.toNat < 32) :
    (PartialString.mk before none true).pushUnit c.toNat = ⟨c :: before, none, true⟩ := by
  have hhigh : PartialString.isHigh c.toNat = false := by
    have hlt : ¬ 0xD800 ≤ c.toNat := by omega
    simp only [PartialString.isHigh, hlt, decide_false, Bool.false_and]
  have hlow : PartialString.isLow c.toNat = false := by
    have hlt : ¬ 0xDC00 ≤ c.toNat := by omega
    simp only [PartialString.isLow, hlt, decide_false, Bool.false_and]
  simp only [PartialString.pushUnit, hhigh, hlow, Bool.false_eq_true, if_false,
    PartialString.push, Char.ofNat_toNat, Option.isNone_none, Bool.and_true]

/-- Every character of a string comes back as itself. -/
theorem run_writeChar (before : List Char) (c : Char) :
    run ⟨.string ⟨before, none, true⟩, done⟩ (writeChar c ++ cs) =
      run ⟨.string ⟨c :: before, none, true⟩, done⟩ cs := by
  unfold writeChar
  split
  · subst c; rfl
  split
  · subst c; rfl
  split
  · subst c; rfl
  split
  · subst c; rfl
  split
  · subst c; rfl
  split
  · subst c; rfl
  split
  · subst c; rfl
  split
  case isTrue hlow =>
    have hdigits : ∀ n < 32, hexValue? (Nat.digitChar (n / 16)) = some (n / 16) ∧
        hexValue? (Nat.digitChar (n % 16)) = some (n % 16) := by decide
    obtain ⟨hhigh, hlast⟩ := hdigits c.toNat hlow
    have hzero : hexValue? '0' = some 0 := rfl
    have hvalue : 16 * (16 * (16 * (16 * 0 + 0) + 0) + c.toNat / 16) + c.toNat % 16 = c.toNat := by
      omega
    have hunit := @run_unit done cs ⟨before, none, true⟩ _ _ _ _ _ _ _ _ hzero hzero hhigh hlast
    rw [hvalue, pushUnit_of_low hlow] at hunit
    exact hunit
  case isFalse hquote hbackslash _ _ _ _ _ hlow =>
    have hstep : step ⟨.string ⟨before, none, true⟩, done⟩ c =
        some ⟨.string ⟨c :: before, none, true⟩, done⟩ := by
      simp only [step, hquote, hbackslash, hlow, if_false]
      rfl
    rw [List.singleton_append, run_cons, hstep, Option.bind_some]

theorem run_writeString (h : l.close? = some done) (s : String) :
    l.run (writeString s ++ cs) = run ⟨.gap, .string (some s) :: done⟩ cs := by
  have hchars : ∀ (before chars rest : List Char),
      run ⟨.string ⟨before, none, true⟩, done⟩ (chars.flatMap writeChar ++ rest) =
        run ⟨.string ⟨chars.reverse ++ before, none, true⟩, done⟩ rest := by
    intro before chars rest
    induction chars generalizing before with
    | nil => rfl
    | cons c chars ih =>
      rw [List.flatMap_cons, List.append_assoc, run_writeChar, ih, List.reverse_cons,
        List.append_assoc]
      rfl
  have htext : (PartialString.mk s.toList.reverse none true).text? = some s := by
    simp [PartialString.text?]
  rw [writeString, List.cons_append, List.append_assoc,
    run_cons_of_close h (by decide) (by decide) rfl]
  have hopen := hchars [] s.toList (['"'] ++ cs)
  rw [List.append_nil] at hopen
  refine hopen.trans ?_
  rw [← htext]
  rfl

theorem run_number {before chars : List Char} (hchars : ∀ c ∈ chars, isNumberChar c = true) :
    run ⟨.number before, done⟩ (chars ++ cs) =
      run ⟨.number (chars.reverse ++ before), done⟩ cs := by
  induction chars generalizing before with
  | nil => rfl
  | cons c chars ih =>
    have hc := hchars c (List.mem_cons_self ..)
    have hstep : step ⟨.number before, done⟩ c = some ⟨.number (c :: before), done⟩ := by
      simp only [step, hc, if_true]
    rw [List.cons_append, run_cons, hstep, Option.bind_some,
      ih fun d hd => hchars d (List.mem_cons_of_mem c hd), List.reverse_cons, List.append_assoc]
    rfl

/-- Reading some characters and closing the run that they end with gives some tokens. -/
def Reads (l : Lexer) (cs : List Char) (done : List Token) : Prop :=
  ∃ l' : Lexer, l'.close? = some done ∧ ∀ rest, l.run (cs ++ rest) = l'.run rest

theorem Reads.of_gap {first second : List Char} {gap : List Token}
    (hfirst : ∀ rest, l.run (first ++ rest) = run ⟨.gap, gap⟩ rest)
    (hsecond : Reads ⟨.gap, gap⟩ second done) : Reads l (first ++ second) done := by
  obtain ⟨l', hclose, hrun⟩ := hsecond
  refine ⟨l', hclose, fun rest => ?_⟩
  rw [List.append_assoc, hfirst, hrun]

theorem Reads.append {first second : List Char} {between : List Token}
    (hfirst : Reads l first between)
    (hsecond : ∀ l' : Lexer, l'.close? = some between → Reads l' second done) :
    Reads l (first ++ second) done := by
  obtain ⟨l', hclose, hrun⟩ := hfirst
  obtain ⟨l'', hclose', hrun'⟩ := hsecond l' hclose
  refine ⟨l'', hclose', fun rest => ?_⟩
  rw [List.append_assoc, hrun, hrun']

theorem writeInt_eq_cons (n : Int) : ∃ first rest, writeInt n = first :: rest ∧
    (first.isDigit || first = '-') = true ∧ ∀ c ∈ rest, isNumberChar c = true := by
  have hnumber : ∀ c ∈ Nat.toDigits 10 n.natAbs, isNumberChar c = true := by
    intro c hc
    simp only [isNumberChar, isDigit_of_mem_toDigits hc, Bool.true_or]
  unfold writeInt writeNat
  split
  · exact ⟨'-', _, rfl, rfl, hnumber⟩
  · cases hdigits : Nat.toDigits 10 n.natAbs with
    | nil => exact absurd hdigits Nat.toDigits_ne_nil
    | cons first rest =>
      have hfirst : first.isDigit = true := by
        apply @isDigit_of_mem_toDigits n.natAbs
        rw [hdigits]
        exact List.mem_cons_self ..
      rw [hdigits] at hnumber
      refine ⟨first, rest, rfl, ?_, fun c hc => hnumber c (List.mem_cons_of_mem _ hc)⟩
      simp only [hfirst, Bool.true_or]

theorem begin_of_dashed {first : Char} (h : (first.isDigit || first = '-') = true) :
    begin done first = some ⟨.number [first], done⟩ := by
  have hgap : isGap first = false := by
    simp only [isGap, Bool.or_eq_false_iff, decide_eq_false_iff_not]
    refine ⟨⟨⟨?_, ?_⟩, ?_⟩, ?_⟩
    all_goals
      intro hfirst
      subst hfirst
      exact absurd h (by decide)
  have hquote : first ≠ '"' := by
    intro hfirst
    subst hfirst
    exact absurd h (by decide)
  simp only [begin, hgap, hquote, Bool.false_eq_true, if_false, h, if_true]

/-- A whole number is read as long as it goes on. -/
theorem reads_writeInt (n : Int) :
    Reads ⟨.gap, done⟩ (writeInt n) (.number (.ofInt n) :: done) := by
  obtain ⟨first, rest, hfirst, hdashed, hrest⟩ := writeInt_eq_cons n
  refine ⟨⟨.number (rest.reverse ++ [first]), done⟩, ?_, fun tail => ?_⟩
  · have hall : (rest.reverse ++ [first]).reverse = writeInt n := by
      rw [hfirst, List.reverse_append, List.reverse_reverse]
      rfl
    simp only [close?, hall, Literal.ofList?_writeInt, Option.map_some]
  · rw [hfirst, List.cons_append, run_cons]
    refine (congrArg (Option.bind · _) (begin_of_dashed hdashed)).trans ?_
    rw [Option.bind_some]
    exact run_number hrest

theorem reads_writeBool (b : Bool) : Reads ⟨.gap, done⟩ (writeBool b) (.bool b :: done) := by
  cases b with
  | true => exact ⟨⟨.word ['e', 'u', 'r', 't'], done⟩, rfl, fun _ => rfl⟩
  | false => exact ⟨⟨.word ['e', 's', 'l', 'a', 'f'], done⟩, rfl, fun _ => rfl⟩

/-- A closing bracket or brace stands on a line of its own. -/
theorem reads_closing (c : Char) (t : Token) (h : l.close? = some done) (depth : Nat)
    (hc : ∀ before, begin before c = some ⟨.gap, t :: before⟩) (hnumber : isNumberChar c = false)
    (hword : c.isAlpha = false) : Reads l (newLine depth ++ [c]) (t :: done) := by
  refine ⟨⟨.gap, t :: done⟩, rfl, fun rest => ?_⟩
  rw [List.append_assoc, run_newLine h, List.singleton_append]
  exact run_cons_of_close rfl hnumber hword (hc done)

/-- The name of a field up to the value. -/
theorem run_name (h : l.close? = some done) (depth : Nat) (k : String) :
    l.run (newLine depth ++ writeString k ++ [':', ' '] ++ cs) =
      run ⟨.gap, .colon :: .string (some k) :: done⟩ cs := by
  rw [List.append_assoc, List.append_assoc, run_newLine h, run_writeString rfl]
  rfl

theorem run_comma (h : l.close? = some done) :
    l.run (',' :: cs) = run ⟨.gap, .comma :: done⟩ cs :=
  run_cons_of_close h (by decide) (by decide) rfl

open Value

mutual

/-- A value of whole numbers is read as its tokens, however deep it stands. -/
theorem reads_indentedList (depth : Nat) (v : Value) (hv : v.IsWhole) (done : List Token) :
    Reads ⟨.gap, done⟩ (indentedList depth v) (v.tokens.reverse ++ done) := by
  match v with
  | .null => exact ⟨⟨.word ['l', 'l', 'u', 'n'], done⟩, rfl, fun _ => rfl⟩
  | .bool b => exact reads_writeBool b
  | .number (.whole n) => exact reads_writeInt n
  | .number (.double ..) => exact absurd hv id
  | .string s => exact ⟨⟨.gap, .string (some s) :: done⟩, rfl, fun rest => run_writeString rfl s⟩
  | .array [] => exact ⟨⟨.gap, .closeBracket :: .openBracket :: done⟩, rfl, fun _ => rfl⟩
  | .array (v :: vs) =>
    obtain ⟨hfirst, hrest⟩ := hv
    have hopen : ∀ rest, run ⟨.gap, done⟩ ('[' :: newLine (depth + 1) ++ rest) =
        run ⟨.gap, .openBracket :: done⟩ rest := fun rest =>
      (run_cons_of_close rfl (by decide) (by decide) rfl).trans (run_newLine rfl (depth + 1))
    have hall := (Reads.of_gap hopen (reads_indentedList (depth + 1) v hfirst _)).append fun l hl =>
      (reads_indentedItems depth vs hrest hl).append fun l' hl' =>
        reads_closing ']' .closeBracket hl' depth (fun _ => rfl) (by decide) (by decide)
    simpa [indentedList, tokens] using hall
  | .object [] => exact ⟨⟨.gap, .closeBrace :: .openBrace :: done⟩, rfl, fun _ => rfl⟩
  | .object ((k, v) :: fields) =>
    obtain ⟨hfirst, hrest⟩ := hv
    have hopen : ∀ rest, run ⟨.gap, done⟩
        ('\x7b' :: (newLine (depth + 1) ++ writeString k ++ [':', ' ']) ++ rest) =
        run ⟨.gap, .colon :: .string (some k) :: .openBrace :: done⟩ rest := fun rest =>
      (run_cons_of_close rfl (by decide) (by decide) rfl).trans (run_name rfl (depth + 1) k)
    have hall := (Reads.of_gap hopen (reads_indentedList (depth + 1) v hfirst _)).append fun l hl =>
      (reads_indentedFields depth fields hrest hl).append fun l' hl' =>
        reads_closing '\x7d' .closeBrace hl' depth (fun _ => rfl) (by decide) (by decide)
    simpa [indentedList, tokens] using hall

theorem reads_indentedItems (depth : Nat) (vs : List Value) (hvs : AreWhole vs) {l : Lexer}
    {done : List Token} (hl : l.close? = some done) :
    Reads l (indentedItems depth vs) ((itemTokens vs).reverse ++ done) := by
  match vs with
  | [] => exact ⟨l, hl, fun _ => rfl⟩
  | v :: vs =>
    obtain ⟨hfirst, hrest⟩ := hvs
    have hopen : ∀ rest, l.run (',' :: newLine (depth + 1) ++ rest) =
        run ⟨.gap, .comma :: done⟩ rest := fun rest =>
      (run_comma hl).trans (run_newLine rfl (depth + 1))
    have hall := (Reads.of_gap hopen (reads_indentedList (depth + 1) v hfirst _)).append
      fun l hl => reads_indentedItems depth vs hrest hl
    simpa [indentedItems, itemTokens] using hall

theorem reads_indentedFields (depth : Nat) (fields : List (String × Value))
    (hfields : FieldsWhole fields) {l : Lexer} {done : List Token} (hl : l.close? = some done) :
    Reads l (indentedFields depth fields) ((fieldTokens fields).reverse ++ done) := by
  match fields with
  | [] => exact ⟨l, hl, fun _ => rfl⟩
  | (k, v) :: fields =>
    obtain ⟨hfirst, hrest⟩ := hfields
    have hopen : ∀ rest, l.run
        (',' :: (newLine (depth + 1) ++ writeString k ++ [':', ' ']) ++ rest) =
        run ⟨.gap, .colon :: .string (some k) :: .comma :: done⟩ rest := fun rest =>
      (run_comma hl).trans (run_name rfl (depth + 1) k)
    have hall := (Reads.of_gap hopen (reads_indentedList (depth + 1) v hfirst _)).append
      fun l hl => reads_indentedFields depth fields hrest hl
    simpa [indentedFields, fieldTokens] using hall

end

end Lexer

/-- The text of a value of whole numbers is cut into the tokens of the value. -/
theorem tokens?_indentedList {v : Value} (hv : v.IsWhole) :
    tokens? (indentedList 0 v) = some v.tokens := by
  obtain ⟨l, hclose, hrun⟩ := Lexer.reads_indentedList 0 v hv []
  have hall := hrun []
  rw [List.append_nil] at hall hclose
  have hfold : (indentedList 0 v).foldlM Lexer.step Lexer.start = some l := hall
  unfold tokens?
  simp only [hfold, Option.bind_eq_bind, Option.bind_some, hclose, List.reverse_reverse]
  rfl

namespace Reader

/-- The state after some tokens. -/
def run (r : Reader) (ts : List Token) : Option Reader := ts.foldlM step r

theorem run_cons {r next : Reader} {t : Token} {ts : List Token} (h : r.step t = some next) :
    r.run (t :: ts) = next.run ts := by
  rw [run, List.foldlM_cons, h]
  rfl

/-- Where an array may end, its first item begins as anywhere else. -/
theorem run_openArray (v : Value) (stack : List Frame) (ts : List Token) :
    run (openArray stack) (v.tokens ++ ts) = run (value (.array [] :: stack)) (v.tokens ++ ts) := by
  match v with
  | .null => rfl
  | .bool _ => rfl
  | .number _ => rfl
  | .string _ => rfl
  | .array [] => rfl
  | .array (_ :: _) => rfl
  | .object [] => rfl
  | .object ((_, _) :: _) => rfl

open Value

mutual

/-- The tokens of a value are put together to what its text says. -/
theorem run_tokens (v : Value) (stack : List Frame) (ts : List Token) :
    run (value stack) (v.tokens ++ ts) = run (after v.raw stack) ts := by
  match v with
  | .null => rfl
  | .bool _ => rfl
  | .number _ => rfl
  | .string _ => rfl
  | .array [] => rfl
  | .array (v :: vs) =>
    have hitems := run_itemTokens vs v.raw [] stack ts
    rw [tokens, List.cons_append, run_cons rfl, List.append_assoc, List.append_assoc,
      run_openArray, run_tokens v, List.singleton_append, hitems]
    rfl
  | .object [] => rfl
  | .object ((k, v) :: fields) =>
    have hfields := run_fieldTokens fields (some k) v.raw [] stack ts
    rw [tokens, List.cons_append, List.cons_append, List.cons_append, run_cons rfl, run_cons rfl,
      run_cons rfl, List.append_assoc, List.append_assoc, run_tokens v, List.singleton_append,
      hfields]
    rfl

theorem run_itemTokens (vs : List Value) (r : Raw) (before : List Raw) (stack : List Frame)
    (ts : List Token) :
    run (after r (.array before :: stack)) (itemTokens vs ++ .closeBracket :: ts) =
      run (after (.array ((r :: before).reverse ++ rawItems vs)) stack) ts := by
  match vs with
  | [] =>
    rw [itemTokens, rawItems, List.append_nil, List.nil_append]
    exact run_cons rfl
  | v :: vs =>
    rw [itemTokens, List.cons_append, run_cons rfl, List.append_assoc, run_tokens v,
      run_itemTokens vs, List.reverse_cons, List.append_assoc, rawItems]
    rfl

theorem run_fieldTokens (fields : List (String × Value)) (key : Option String) (r : Raw)
    (before : List (Option String × Raw)) (stack : List Frame) (ts : List Token) :
    run (after r (.object before key :: stack)) (fieldTokens fields ++ .closeBrace :: ts) =
      run (after (.object (((key, r) :: before).reverse ++ rawFields fields)) stack) ts := by
  match fields with
  | [] =>
    rw [fieldTokens, rawFields, List.append_nil, List.nil_append]
    exact run_cons rfl
  | (k, v) :: fields =>
    rw [fieldTokens, List.cons_append, List.cons_append, List.cons_append, run_cons rfl,
      run_cons rfl, run_cons rfl, List.append_assoc, run_tokens v, run_fieldTokens fields,
      List.reverse_cons, List.append_assoc, rawFields]
    rfl

end

end Reader

/-- Reading an indented text gives what the value says. -/
theorem ofText?_indented {v : Value} (hv : v.IsWhole) : Raw.ofText? v.indented = some v.raw := by
  have hrun := Reader.run_tokens v [] []
  rw [List.append_nil] at hrun
  have hfold : v.tokens.foldlM Reader.step Reader.start = some (.after v.raw []) := hrun
  rw [Raw.ofText?, Value.indented, String.toList_ofList, tokens?_indentedList hv]
  simp only [Option.bind_eq_bind, Option.bind_some, Raw.ofTokens?, hfold]
  rfl

end Testnet.Json
