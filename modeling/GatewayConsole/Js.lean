import Mathlib.Data.List.Basic
import Mathlib.Data.List.TakeWhile
import Mathlib.Data.String.Basic

/-!
# JavaScript values the model computes with

What the development uses of the language and its standard library, and
nothing of the program: numbers that may be `NaN`, the range of `Date`, strings as
sequences of code points, and JSON text.

Strings go through `String.toList`, so every function here evaluates in the
kernel. `toLowerCase` is a class rather than a definition: the full Unicode
table with its context rule for sigma is not copied, and what the program
relies on is stated instead, as the two laws of `Unicode`. Theorems about
the program hold for every such mapping, the real one among them.
-/

namespace GatewayConsole

/-! ## Numbers -/

/-- An integral `number`, or `NaN`. -/
inductive Num where
  | nan
  | int (n : Int)
deriving Repr, DecidableEq

namespace Num

/-- `a <= b`, false when either side is `NaN`. -/
def le : Num → Int → Bool
  | nan, _ => false
  | int a, b => decide (a ≤ b)

@[simp] theorem le_nan (b : Int) : le nan b = false := rfl

@[simp] theorem le_int {a b : Int} : le (int a) b = true ↔ a ≤ b := by simp [le]

end Num

/-- The largest magnitude of a `Date`, in milliseconds. -/
def maxTime : Int := 8640000000000000

/-! ## Strings -/

/-- The characters `trim` and `\s` count as white space. -/
def isSpace (c : Char) : Bool :=
  c.toNat ∈ [0x09, 0x0A, 0x0B, 0x0C, 0x0D, 0x20, 0xA0, 0x1680, 0x2028, 0x2029,
    0x202F, 0x205F, 0x3000, 0xFEFF] || (0x2000 ≤ c.toNat && c.toNat ≤ 0x200A)

/-- `s.trim()`. -/
def trim (s : String) : String :=
  String.ofList (((s.toList.dropWhile isSpace).reverse.dropWhile isSpace).reverse)

/-- The pieces of `s.split(/\s+/)`: `cur` is the piece being read, reversed, and
`inGap` says that the separator before it is still running. -/
def splitSpaceAux : List Char → List Char → Bool → List String
  | [], cur, _ => [String.ofList cur.reverse]
  | c :: cs, cur, inGap =>
      if isSpace c then
        if inGap then splitSpaceAux cs cur true
        else String.ofList cur.reverse :: splitSpaceAux cs [] true
      else splitSpaceAux cs (c :: cur) false

/-- `s.split(/\s+/)`. -/
def splitSpace (s : String) : List String := splitSpaceAux s.toList [] false

/-- `s.startsWith(p)`. -/
def startsWith (s p : String) : Bool := p.toList.isPrefixOf s.toList

/-- `s.endsWith(p)`. -/
def endsWith (s p : String) : Bool := p.toList.isSuffixOf s.toList

/-- The UTF-16 code units of a string, by which `sort` compares. -/
def utf16Units (s : String) : List Nat :=
  s.toList.flatMap fun c =>
    if 0x10000 ≤ c.toNat then
      [0xD800 + (c.toNat - 0x10000) / 0x400, 0xDC00 + (c.toNat - 0x10000) % 0x400]
    else [c.toNat]

/-- `s.length`. -/
def utf16Length (s : String) : Nat := (utf16Units s).length

/-- `xs.sort()`, of strings. -/
def sortStrings (xs : List String) : List String :=
  xs.mergeSort fun a b => decide (utf16Units a ≤ utf16Units b)

/-- `s || null`: the empty string counts as absent. -/
def orNull (s : String) : Option String := if s = "" then none else some s

theorem head_trim {s : String} {c : Char} (h : (trim s).toList.head? = some c) :
    isSpace c = false := by
  rw [trim, String.toList_ofList] at h
  have hpre : ((s.toList.dropWhile isSpace).reverse.dropWhile isSpace).reverse
      <+: s.toList.dropWhile isSpace := by
    rw [← List.reverse_suffix, List.reverse_reverse]
    exact List.dropWhile_suffix isSpace
  obtain ⟨rest, hrest⟩ := hpre
  have hhead : (s.toList.dropWhile isSpace).head? = some c := by
    rw [← hrest, List.head?_append, h, Option.some_or]
  have := List.head?_dropWhile_not isSpace s.toList
  rw [hhead] at this
  exact this

theorem last_trim {s : String} {c : Char} (h : (trim s).toList.getLast? = some c) :
    isSpace c = false := by
  rw [trim, String.toList_ofList, List.getLast?_reverse] at h
  have := List.head?_dropWhile_not isSpace (s.toList.dropWhile isSpace).reverse
  rw [h] at this
  exact this

theorem dropWhile_eq_self {cs : List Char} (h : ∀ c, cs.head? = some c → isSpace c = false) :
    cs.dropWhile isSpace = cs := by
  cases cs with
  | nil => rfl
  | cons c cs => rw [List.dropWhile_cons_of_neg (by simp [h c rfl])]

/-- A string with no white space at its ends is trimmed. -/
theorem trim_eq_self {s : String} (hhead : ∀ c, s.toList.head? = some c → isSpace c = false)
    (hlast : ∀ c, s.toList.getLast? = some c → isSpace c = false) : trim s = s := by
  rw [trim, dropWhile_eq_self hhead,
    dropWhile_eq_self (by rw [List.head?_reverse]; exact hlast), List.reverse_reverse,
    String.ofList_toList]

@[simp] theorem trim_trim (s : String) : trim (trim s) = trim s :=
  trim_eq_self (fun _ h => head_trim h) fun _ h => last_trim h

theorem splitSpaceAux_ne_nil :
    ∀ (cs cur : List Char) (inGap : Bool), splitSpaceAux cs cur inGap ≠ []
  | [], _, _ => by simp [splitSpaceAux]
  | c :: cs, cur, inGap => by
      unfold splitSpaceAux
      split
      · split
        · exact splitSpaceAux_ne_nil cs cur true
        · exact List.cons_ne_nil _ _
      · exact splitSpaceAux_ne_nil cs (c :: cur) false

theorem splitSpaceAux_of_noSpace :
    ∀ {cs : List Char} (cur : List Char) (inGap : Bool), (∀ c ∈ cs, isSpace c = false) →
      splitSpaceAux cs cur inGap = [String.ofList (cur.reverse ++ cs)]
  | [], cur, _, _ => by simp [splitSpaceAux]
  | c :: cs, cur, inGap, h => by
      rw [splitSpaceAux, if_neg (by simp [h c List.mem_cons_self]),
        splitSpaceAux_of_noSpace (c :: cur) false fun d hd => h d (List.mem_cons_of_mem _ hd)]
      simp

/-- Past the first piece, white space makes another. -/
theorem splitSpaceAux_of_space :
    ∀ {cs : List Char} (cur : List Char), (∃ c ∈ cs, isSpace c = true) →
      1 < (splitSpaceAux cs cur false).length
  | [], _, h => by
      obtain ⟨c, hc, -⟩ := h
      cases hc
  | c :: cs, cur, h => by
      cases hc : isSpace c with
      | true =>
          have hrest := List.length_pos_iff.mpr (splitSpaceAux_ne_nil cs [] true)
          simp only [splitSpaceAux, hc, if_true, Bool.false_eq_true, if_false, List.length_cons]
          omega
      | false =>
          obtain ⟨d, hd, hspace⟩ := h
          have hmem : d ∈ cs := by
            rcases List.mem_cons.mp hd with rfl | hd
            · rw [hc] at hspace
              cases hspace
            · exact hd
          simp only [splitSpaceAux, hc, Bool.false_eq_true, if_false]
          exact splitSpaceAux_of_space (c :: cur) ⟨d, hmem, hspace⟩

/-- White space around a string, and the string. -/
theorem exists_trim (s : String) :
    ∃ before after : List Char, s.toList = before ++ (trim s).toList ++ after
      ∧ (∀ c ∈ before, isSpace c = true) ∧ ∀ c ∈ after, isSpace c = true := by
  have hfront := List.takeWhile_append_dropWhile (p := isSpace) (l := s.toList)
  have hback := List.takeWhile_append_dropWhile (p := isSpace)
    (l := (s.toList.dropWhile isSpace).reverse)
  refine ⟨s.toList.takeWhile isSpace,
    ((s.toList.dropWhile isSpace).reverse.takeWhile isSpace).reverse, ?_,
    fun c hc => List.mem_takeWhile_imp hc,
    fun c hc => List.mem_takeWhile_imp (List.mem_reverse.mp hc)⟩
  rw [trim, String.toList_ofList, List.append_assoc, ← List.reverse_append, hback,
    List.reverse_reverse, hfront]

/-- Behind a separator further white space changes nothing. -/
theorem splitSpaceAux_gap :
    ∀ cs : List Char, splitSpaceAux cs [] true = splitSpaceAux (cs.dropWhile isSpace) [] false
  | [] => rfl
  | c :: cs => by
      cases hc : isSpace c with
      | true =>
          rw [List.dropWhile_cons_of_pos hc, ← splitSpaceAux_gap cs]
          simp only [splitSpaceAux, hc, if_true]
      | false =>
          rw [List.dropWhile_cons_of_neg (by simp [hc])]
          simp only [splitSpaceAux, hc, Bool.false_eq_true, if_false]

/-- The first piece goes up to the first white space. -/
theorem splitSpaceAux_eq :
    ∀ cs cur : List Char, splitSpaceAux cs cur false
      = String.ofList (cur.reverse ++ cs.takeWhile (!isSpace ·))
        :: match cs.dropWhile (!isSpace ·) with
          | [] => []
          | _ :: rest => splitSpaceAux rest [] true
  | [], cur => by simp [splitSpaceAux]
  | c :: cs, cur => by
      cases hc : isSpace c with
      | true =>
          rw [List.takeWhile_cons_of_neg (by simp [hc]), List.dropWhile_cons_of_neg (by simp [hc]),
            List.append_nil]
          simp only [splitSpaceAux, hc, if_true, Bool.false_eq_true, if_false]
      | false =>
          rw [List.takeWhile_cons_of_pos (by simp [hc]), List.dropWhile_cons_of_pos (by simp [hc])]
          have hrest := splitSpaceAux_eq cs (c :: cur)
          rw [List.reverse_cons, List.append_assoc, List.singleton_append] at hrest
          simp only [splitSpaceAux, hc, Bool.false_eq_true, if_false]
          exact hrest

/-- A string that splits into two pieces: the pieces are without white space, which is all
that there is between them. -/
theorem splitSpace_eq_pair {s a b : String} (h : splitSpace s = [a, b]) :
    ∃ gap : List Char, s.toList = a.toList ++ gap ++ b.toList ∧ gap ≠ []
      ∧ (∀ c ∈ gap, isSpace c = true) ∧ (∀ c ∈ a.toList, isSpace c = false)
      ∧ ∀ c ∈ b.toList, isSpace c = false := by
  have hnoSpace : ∀ {cs : List Char} {c : Char}, c ∈ cs.takeWhile (!isSpace ·) →
      isSpace c = false := fun hc => by simpa using List.mem_takeWhile_imp hc
  rw [splitSpace, splitSpaceAux_eq, List.reverse_nil, List.nil_append] at h
  obtain ⟨ha, htail⟩ := List.cons.inj h
  have hsplit := List.takeWhile_append_dropWhile (p := (!isSpace ·)) (l := s.toList)
  cases hdrop : s.toList.dropWhile (!isSpace ·) with
  | nil =>
      rw [hdrop] at htail
      cases htail
  | cons g rest =>
      have hg : isSpace g = true := by
        have := List.head?_dropWhile_not (!isSpace ·) s.toList
        rw [hdrop] at this
        simpa using this
      rw [hdrop] at htail hsplit
      have hrest : splitSpaceAux rest [] true = [b] := htail
      rw [splitSpaceAux_gap, splitSpaceAux_eq, List.reverse_nil, List.nil_append] at hrest
      obtain ⟨hb, hend⟩ := List.cons.inj hrest
      cases hlast : (rest.dropWhile isSpace).dropWhile (!isSpace ·) with
      | cons d more =>
          rw [hlast] at hend
          exact absurd hend (splitSpaceAux_ne_nil _ _ _)
      | nil =>
          have hsecond := List.takeWhile_append_dropWhile (p := (!isSpace ·))
            (l := rest.dropWhile isSpace)
          rw [hlast, List.append_nil] at hsecond
          have hgap := List.takeWhile_append_dropWhile (p := isSpace) (l := rest)
          refine ⟨g :: rest.takeWhile isSpace, ?_, List.cons_ne_nil _ _, ?_, ?_, ?_⟩
          · rw [← ha, ← hb, String.toList_ofList, String.toList_ofList, hsecond,
              List.append_assoc, List.cons_append, hgap]
            exact hsplit.symm
          · intro c hc
            rcases List.mem_cons.mp hc with rfl | hc
            · exact hg
            · exact List.mem_takeWhile_imp hc
          · intro c hc
            rw [← ha, String.toList_ofList] at hc
            exact hnoSpace hc
          · intro c hc
            rw [← hb, String.toList_ofList] at hc
            exact hnoSpace hc

/-- The case mapping of the ASCII letters. -/
def asciiLower (s : String) : String := String.ofList (s.toList.map Char.toLower)

/-- What the program relies on of `toLowerCase`: on ASCII strings it maps A-Z to
a-z; and a result in ASCII comes from an ASCII string, unless it contains a `k`
(the Kelvin sign is the one other character that maps into ASCII alone). -/
class Unicode where
  toLowerCase : String → String
  ascii : ∀ s, (∀ c ∈ s.toList, c.toNat < 128) → toLowerCase s = asciiLower s
  ascii_inv : ∀ s, (∀ c ∈ (toLowerCase s).toList, c.toNat < 128 ∧ c ≠ 'k') →
    ∀ c ∈ s.toList, c.toNat < 128

export Unicode (toLowerCase)

theorem toNat_toLower_lt {c : Char} : c.toLower.toNat < 128 ↔ c.toNat < 128 := by
  unfold Char.toLower
  split
  · rename_i h
    have h1 : 65 ≤ c.toNat := h.1
    have h2 : c.toNat ≤ 90 := h.2
    constructor
    · intro _; omega
    · intro _
      show (c.val + 32).toNat < 128
      rw [UInt32.toNat_add]
      have hv : c.val.toNat = c.toNat := rfl
      rw [hv]
      have : (32 : UInt32).toNat = 32 := rfl
      omega
  · rfl

theorem toLower_idem (c : Char) : c.toLower.toLower = c.toLower := by
  have hascii : ∀ n < 128, (Char.ofNat n).toLower.toLower = (Char.ofNat n).toLower := by decide
  by_cases hc : c.toNat < 128
  · have := hascii c.toNat hc
    rwa [Char.ofNat_toNat] at this
  · have hself : c.toLower = c := by
      unfold Char.toLower
      split
      · rename_i h
        have : c.toNat ≤ 90 := h.2
        omega
      · rfl
    rw [hself, hself]

/-- The smallest such mapping: ASCII letters, and nothing else. -/
abbrev asciiUnicode : Unicode where
  toLowerCase := asciiLower
  ascii _ _ := rfl
  ascii_inv s h c hc := by
    have := (h c.toLower (by simpa [asciiLower] using ⟨c, hc, rfl⟩)).1
    exact toNat_toLower_lt.mp this

/-- Against an ASCII string without a `k`, comparing lower-cased strings is
comparing them up to the case of ASCII letters. -/
theorem toLowerCase_eq_iff [Unicode] {a x : String}
    (ha : ∀ c ∈ a.toList, c.toNat < 128 ∧ c.toLower ≠ 'k') :
    toLowerCase x = toLowerCase a ↔ asciiLower x = asciiLower a := by
  have hla : toLowerCase a = asciiLower a := Unicode.ascii a fun c hc => (ha c hc).1
  have hlow : ∀ c ∈ (asciiLower a).toList, c.toNat < 128 ∧ c ≠ 'k' := by
    intro c hc
    simp only [asciiLower, String.toList_ofList, List.mem_map] at hc
    obtain ⟨d, hd, rfl⟩ := hc
    exact ⟨toNat_toLower_lt.mpr (ha d hd).1, (ha d hd).2⟩
  constructor
  · intro h
    rw [hla] at h
    have hx : ∀ c ∈ x.toList, c.toNat < 128 := Unicode.ascii_inv x (by rw [h]; exact hlow)
    rw [← h, Unicode.ascii x hx]
  · intro h
    have hx : ∀ c ∈ x.toList, c.toNat < 128 := by
      intro c hc
      have hmem : c.toLower ∈ (asciiLower x).toList := by
        simpa [asciiLower] using ⟨c, hc, rfl⟩
      rw [h] at hmem
      exact toNat_toLower_lt.mp (hlow _ hmem).1
    rw [Unicode.ascii x hx, hla, h]

/-! ## Exceptions -/

/-- What follows a computation that may throw runs only on its value. -/
theorem except_bind_eq_ok {ε α β : Type} {x : Except ε α} {f : α → Except ε β} {b : β} :
    (x >>= f) = .ok b ↔ ∃ a, x = .ok a ∧ f a = .ok b := by
  cases x with
  | error e => exact ⟨fun h => (by cases h), fun ⟨_, h, _⟩ => (by cases h)⟩
  | ok a => exact ⟨fun h => ⟨a, rfl, h⟩, fun ⟨_, ha, hb⟩ => Except.ok.inj ha ▸ hb⟩

/-! ## JSON text -/

/-- The four hex digits of a `\u` escape of a control character. -/
def hexDigit (n : Nat) : Char := "0123456789abcdef".toList.getD n '0'

/-- One character inside a JSON string. -/
def jsonChar (c : Char) : List Char :=
  match c.toNat with
  | 0x22 => ['\\', '"']
  | 0x5C => ['\\', '\\']
  | 0x08 => ['\\', 'b']
  | 0x09 => ['\\', 't']
  | 0x0A => ['\\', 'n']
  | 0x0C => ['\\', 'f']
  | 0x0D => ['\\', 'r']
  | n => if n < 0x20 then ['\\', 'u', '0', '0', hexDigit (n / 16), hexDigit (n % 16)] else [c]

/-- `JSON.stringify` of a string. -/
def jsonString (s : String) : String :=
  String.ofList ('"' :: s.toList.flatMap jsonChar ++ ['"'])

/-- `JSON.stringify` of an object whose values are strings. -/
def jsonObject (fields : List (String × String)) : String :=
  "\x7b" ++ String.intercalate "," (fields.map fun f => jsonString f.1 ++ ":" ++ jsonString f.2)
    ++ "\x7d"

end GatewayConsole
