import Mathlib.Data.List.Basic
import Mathlib.Data.List.OfFn
import Ztyco.IpPrefixes

/-!
`IPv6Address::insert` of address.cc, on a stream with the default format of a
little-endian machine, and the text form that it writes. The zero groups that are
left out are the first run of them.
-/

namespace Ztyco.IpAddresses

abbrev Text := List Char

abbrev Word := BitVec 16

def byteswapOnLittleEndian (value : Word) : Word :=
  value.extractLsb' 0 8 ++ value.extractLsb' 8 8

def SockAddrIn6.setPort (addr : SockAddrIn6) (port : Word) : SockAddrIn6 :=
  { addr with sin6_port := byteswapOnLittleEndian port }

/-- What `(uint16_t *)s6_addr` points to. -/
def words (addr : In6Addr) : List Word :=
  List.ofFn fun i : Fin 8 =>
    addr.get ⟨2 * i + 1, by omega⟩ ++ addr.get ⟨2 * i, by omega⟩

/-- A stream, which is in base 16 after `std::hex` and in base 10 after `std::dec`. -/
structure OStream where
  text : Text
  hex : Bool := false

namespace OStream

def put (os : OStream) (text : Text) : OStream := { os with text := os.text ++ text }

def number (os : OStream) (value : Nat) : OStream :=
  os.put (Nat.toDigits (if os.hex then 16 else 10) value)

end OStream

/-- The loop of `insert` over the words that are left; `previous` is `addr[i - 1]`,
which there is not when `i` is 0. -/
def insertWords (os : OStream) (used_zeros : Bool) (previous : Option Word) :
    List Word → OStream × Bool
  | [] => (os, used_zeros)
  | word :: rest =>
      -- nothing is written for a zero until what follows it is known
      if word = 0 ∧ used_zeros = false then insertWords os used_zeros (some word) rest
      else
        let (os, used_zeros) :=
          if previous = some 0 ∧ used_zeros = false then (os.put [':'], true) else (os, used_zeros)
        let os := if previous.isSome then os.put [':'] else os
        let os := { os with hex := true }.number (byteswapOnLittleEndian word).toNat
        insertWords { os with hex := false } used_zeros (some word) rest

def insert (addr : SockAddrIn6) (os : OStream) : OStream :=
  let os := os.put ['[']
  let (os, used_zeros) := insertWords os false none (words addr.s6_addr)
  -- the run of zeros goes on to the end
  let os :=
    if used_zeros = false ∧ (words addr.s6_addr).getLast? = some 0 then os.put [':', ':'] else os
  (os.put [']', ':']).number (byteswapOnLittleEndian addr.sin6_port).toNat

/-! The text form of an address. -/

def hexDigit (c : Char) : Option Nat :=
  if '0' ≤ c ∧ c ≤ '9' then some (c.toNat - '0'.toNat)
  else if 'a' ≤ c ∧ c ≤ 'f' then some (c.toNat - 'a'.toNat + 10)
  else if 'A' ≤ c ∧ c ≤ 'F' then some (c.toNat - 'A'.toNat + 10)
  else none

def hexNumber (text : Text) : Option Nat :=
  text.foldlM (fun value c => (hexDigit c).map (16 * value + ·)) 0

def hexGroup (text : Text) : Option Word :=
  if text = [] ∨ 4 < text.length then none else (hexNumber text).map (BitVec.ofNat 16)

def hexGroups (text : Text) : Option (List Word) :=
  if text = [] then some [] else (text.splitOn ':').mapM hexGroup

def cutDouble : Text → Option (Text × Text)
  | [] => none
  | c :: rest =>
      if c = ':' ∧ rest.head? = some ':' then some ([], rest.tail)
      else (cutDouble rest).map fun cut => (c :: cut.1, cut.2)

/-- Eight groups, of which `::` stands for one or more that are 0. -/
def parseGroups (text : Text) : Option (List Word) :=
  match cutDouble text with
  | some (before, after) => do
      let left ← hexGroups before
      let right ← hexGroups after
      if left.length + right.length < 8 then
        some (left ++ List.replicate (8 - (left.length + right.length)) 0 ++ right)
      else none
  | none => do
      let groups ← hexGroups text
      if groups.length = 8 then some groups else none

def bytesOf (group : Word) : List Byte := [group.extractLsb' 8 8, group.extractLsb' 0 8]

def parse (text : Text) : Option (List Byte) :=
  (parseGroups text).map fun groups => groups.flatMap bytesOf

def doubleColons : Text → Nat
  | [] => 0
  | c :: rest => (if c = ':' ∧ rest.head? = some ':' then 1 else 0) + doubleColons rest

def ReadsBack (addr : In6Addr) (port : Word) (written : Text) : Prop :=
  ∃ body, written = '[' :: (body ++ ']' :: ':' :: Nat.toDigits 10 port.toNat) ∧
    ']' ∉ body ∧ doubleColons body ≤ 1 ∧ parse body = some addr.toList

/-! Groups. -/

theorem hexDigit_digitChar {digit : Nat} (small : digit < 16) :
    hexDigit digit.digitChar = some digit := by
  have all : ∀ digit : Fin 16, hexDigit digit.val.digitChar = some digit.val := by decide
  exact all ⟨digit, small⟩

theorem hexNumber_toDigits (n : Nat) : hexNumber (Nat.toDigits 16 n) = some n := by
  induction n using Nat.strongRecOn with
  | ind n ih =>
      by_cases small : n < 16
      · rw [Nat.toDigits_of_lt_base small]
        simp [hexNumber, hexDigit_digitChar small]
      · have shorter := ih (n / 16) (by omega)
        rw [hexNumber] at shorter
        -- the last digit, after the digits of a sixteenth
        rw [Nat.toDigits_of_base_le (by decide) (Nat.not_lt.mp small), hexNumber,
          List.foldlM_append, shorter]
        have digit := hexDigit_digitChar (Nat.mod_lt n (by decide : 0 < 16))
        simp only [Option.bind_eq_bind, Option.bind_some, List.foldlM_cons, digit,
          Option.map_some, List.foldlM_nil]
        exact congrArg some (Nat.div_add_mod n 16)

theorem hexDigit_of_mem {n : Nat} {c : Char} (mem : c ∈ Nat.toDigits 16 n) :
    (hexDigit c).isSome := by
  induction n using Nat.strongRecOn with
  | ind n ih =>
      by_cases small : n < 16
      · rw [Nat.toDigits_of_lt_base small] at mem
        rw [List.mem_singleton.mp mem, hexDigit_digitChar small]
        rfl
      · rw [Nat.toDigits_of_base_le (by decide) (Nat.not_lt.mp small)] at mem
        rcases List.mem_append.mp mem with before | last
        · exact ih (n / 16) (by omega) before
        · rw [List.mem_singleton.mp last,
            hexDigit_digitChar (Nat.mod_lt n (by decide : 0 < 16))]
          rfl

def digits (word : Word) : Text := Nat.toDigits 16 (byteswapOnLittleEndian word).toNat

theorem digits_ne_nil (word : Word) : digits word ≠ [] := Nat.toDigits_ne_nil

theorem not_mem_digits {c : Char} (other : hexDigit c = none) (word : Word) :
    c ∉ digits word := by
  intro mem
  have digit := hexDigit_of_mem mem
  rw [other] at digit
  cases digit

theorem hexGroup_digits (word : Word) :
    hexGroup (digits word) = some (byteswapOnLittleEndian word) := by
  have short : (digits word).length ≤ 4 :=
    (Nat.length_toDigits_le_iff (by decide) (by decide)).mpr (byteswapOnLittleEndian word).isLt
  have inside : ¬ (digits word = [] ∨ 4 < (digits word).length) :=
    not_or.mpr ⟨digits_ne_nil word, Nat.not_lt.mpr short⟩
  rw [hexGroup, if_neg inside, digits, hexNumber_toDigits, Option.map_some,
    BitVec.ofNat_toNat, BitVec.setWidth_eq]

def joined (words : List Word) : Text := [':'].intercalate (words.map digits)

theorem mapM_hexGroup (words : List Word) :
    (words.map digits).mapM hexGroup = some (words.map byteswapOnLittleEndian) := by
  induction words with
  | nil => rfl
  | cons word rest ih =>
      rw [List.map_cons, List.mapM_cons, hexGroup_digits, ih]
      rfl

theorem joined_cons (word : Word) (rest : List Word) :
    joined (word :: rest) = digits word ++ rest.flatMap fun word => ':' :: digits word := by
  induction rest generalizing word with
  | nil => simp [joined]
  | cons next rest ih =>
      have tail := ih next
      rw [joined] at tail ⊢
      rw [List.map_cons, List.map_cons, List.intercalate_cons_cons, ← List.map_cons, tail]
      simp

theorem hexGroups_joined (words : List Word) :
    hexGroups (joined words) = some (words.map byteswapOnLittleEndian) := by
  rcases words with _ | ⟨word, rest⟩
  · rfl
  · have nonempty : joined (word :: rest) ≠ [] := by
      rw [joined_cons]
      exact List.append_ne_nil_of_left_ne_nil (digits_ne_nil word) _
    have plain : ∀ text ∈ (word :: rest).map digits, ':' ∉ text := by
      intro text mem
      obtain ⟨word', _, rfl⟩ := List.mem_map.mp mem
      exact not_mem_digits (by decide) word'
    rw [hexGroups, if_neg nonempty, joined, List.splitOn_intercalate ':' plain (by simp),
      mapM_hexGroup]

/-! Colons. -/

theorem doubleColons_plain {text rest : Text} (plain : ':' ∉ text) :
    doubleColons (text ++ rest) = doubleColons rest := by
  induction text with
  | nil => rfl
  | cons c text ih =>
      have other : c ≠ ':' := fun same => plain (same ▸ List.mem_cons_self)
      have after : ':' ∉ text := fun mem => plain (List.mem_cons_of_mem c mem)
      rw [List.cons_append, doubleColons, ih after, if_neg fun both => other both.1, Nat.zero_add]

theorem cutDouble_plain {text rest : Text} (plain : ':' ∉ text) :
    cutDouble (text ++ rest) = (cutDouble rest).map fun cut => (text ++ cut.1, cut.2) := by
  induction text with
  | nil =>
      rw [List.nil_append]
      exact Option.map_id'.symm
  | cons c text ih =>
      have other : c ≠ ':' := fun same => plain (same ▸ List.mem_cons_self)
      have after : ':' ∉ text := fun mem => plain (List.mem_cons_of_mem c mem)
      rw [List.cons_append, cutDouble, if_neg fun both => other both.1, ih after, Option.map_map]
      rfl

theorem head_digits (word : Word) (rest : Text) : (digits word ++ rest).head? ≠ some ':' := by
  intro colon
  rw [List.head?_append_of_ne_nil _ (digits_ne_nil word)] at colon
  exact not_mem_digits (by decide) word (List.mem_of_head? colon)

theorem not_mem_joined {c : Char} (other : hexDigit c = none) (noColon : c ≠ ':')
    (words : List Word) : c ∉ joined words := by
  rcases words with _ | ⟨word, rest⟩
  · exact List.not_mem_nil
  · rw [joined_cons, List.mem_append, List.mem_flatMap]
    rintro (mem | ⟨word', _, mem⟩)
    · exact not_mem_digits other word mem
    · rcases List.mem_cons.mp mem with same | mem
      · exact noColon same
      · exact not_mem_digits other word' mem

def following (words : List Word) : Text := words.flatMap fun word => ':' :: digits word

theorem following_cons (word : Word) (words : List Word) (rest : Text) :
    following (word :: words) ++ rest = ':' :: (digits word ++ (following words ++ rest)) := by
  simp [following]

theorem doubleColons_following (words : List Word) (rest : Text) :
    doubleColons (following words ++ rest) = doubleColons rest := by
  induction words with
  | nil => rfl
  | cons word words ih =>
      rw [following_cons, doubleColons, if_neg fun both => head_digits word _ both.2,
        doubleColons_plain (not_mem_digits (by decide) word), ih, Nat.zero_add]

theorem cutDouble_following (words : List Word) (rest : Text) :
    cutDouble (following words ++ rest) =
      (cutDouble rest).map fun cut => (following words ++ cut.1, cut.2) := by
  induction words with
  | nil => exact Option.map_id'.symm
  | cons word words ih =>
      rw [following_cons, cutDouble, if_neg fun both => head_digits word _ both.2,
        cutDouble_plain (not_mem_digits (by decide) word), ih, Option.map_map, Option.map_map]
      congr 1
      funext cut
      simp only [Function.comp_apply, following_cons]

theorem doubleColons_joined (words : List Word) (rest : Text) :
    doubleColons (joined words ++ rest) = doubleColons rest := by
  rcases words with _ | ⟨word, words⟩
  · rfl
  · rw [joined_cons, List.append_assoc, doubleColons_plain (not_mem_digits (by decide) word)]
    exact doubleColons_following words rest

theorem cutDouble_joined (words : List Word) (rest : Text) :
    cutDouble (joined words ++ rest) =
      (cutDouble rest).map fun cut => (joined words ++ cut.1, cut.2) := by
  rcases words with _ | ⟨word, words⟩
  · exact Option.map_id'.symm
  · have after := cutDouble_following words rest
    rw [following] at after
    rw [joined_cons, List.append_assoc, cutDouble_plain (not_mem_digits (by decide) word), after,
      Option.map_map]
    congr 1
    funext cut
    simp only [Function.comp_apply, List.append_assoc]

theorem doubleColons_compressed (left right : List Word) :
    doubleColons (joined left ++ ':' :: ':' :: joined right) = 1 := by
  have second : doubleColons (':' :: joined right) = 0 := by
    rcases right with _ | ⟨word, rest⟩
    · rfl
    · have colons := doubleColons_following (word :: rest) []
      rw [following_cons, List.append_nil] at colons
      rw [joined_cons]
      exact colons
  rw [doubleColons_joined, doubleColons, if_pos ⟨rfl, rfl⟩, second]

theorem parseGroups_full {words : List Word} (eight : words.length = 8) :
    parseGroups (joined words) = some (words.map byteswapOnLittleEndian) := by
  have whole : cutDouble (joined words) = none := by
    have cut := cutDouble_joined words []
    rwa [List.append_nil] at cut
  rw [parseGroups, whole]
  simp [hexGroups_joined, eight]

theorem parseGroups_compressed {left right : List Word} (fewer : left.length + right.length < 8) :
    parseGroups (joined left ++ ':' :: ':' :: joined right) =
      some (left.map byteswapOnLittleEndian ++
        List.replicate (8 - (left.length + right.length)) 0 ++
          right.map byteswapOnLittleEndian) := by
  have cut : cutDouble (joined left ++ ':' :: ':' :: joined right) =
      some (joined left, joined right) := by
    rw [cutDouble_joined, cutDouble, if_pos ⟨rfl, rfl⟩]
    simp
  rw [parseGroups, cut]
  simp [hexGroups_joined, fewer]

/-! What the loop writes for a word. -/

section Words
variable (text : Text) {word : Word} (rest : List Word)

theorem insertWords_zero (previous : Option Word) :
    insertWords { text := text } false previous (0 :: rest) =
      insertWords { text := text } false (some 0) rest := by
  rw [insertWords, if_pos ⟨rfl, rfl⟩]

theorem insertWords_first (other : word ≠ 0) :
    insertWords { text := text } false none (word :: rest) =
      insertWords { text := text ++ digits word } false (some word) rest := by
  rw [insertWords, if_neg fun both => other both.1]
  rfl

theorem insertWords_next {previous : Word} (before : previous ≠ 0) (other : word ≠ 0) :
    insertWords { text := text } false (some previous) (word :: rest) =
      insertWords { text := text ++ ':' :: digits word } false (some word) rest := by
  rw [insertWords, if_neg fun both => other both.1,
    if_neg fun both => before (Option.some.inj both.1)]
  simp [OStream.put, OStream.number, digits]

/-- The first word after a run of zeros. -/
theorem insertWords_compressed (other : word ≠ 0) :
    insertWords { text := text } false (some 0) (word :: rest) =
      insertWords { text := text ++ ':' :: ':' :: digits word } true (some word) rest := by
  rw [insertWords, if_neg fun both => other both.1, if_pos ⟨rfl, rfl⟩]
  simp [OStream.put, OStream.number, digits]

theorem insertWords_used (previous : Word) :
    insertWords { text := text } true (some previous) (word :: rest) =
      insertWords { text := text ++ ':' :: digits word } true (some word) rest := by
  rw [insertWords, if_neg fun both => Bool.noConfusion both.2,
    if_neg fun both => Bool.noConfusion both.2]
  simp [OStream.put, OStream.number, digits]

end Words

/-! What the loop writes for a run of words. -/

theorem used_run (text : Text) (previous : Word) (words : List Word) :
    insertWords { text := text } true (some previous) words =
      ({ text := text ++ following words }, true) := by
  induction words generalizing text previous with
  | nil => rw [insertWords, following, List.flatMap_nil, List.append_nil]
  | cons word rest ih =>
      rw [insertWords_used, ih]
      simp [following]

theorem zeros_run (text : Text) (previous : Option Word) (n : Nat) (rest : List Word) :
    insertWords { text := text } false previous (List.replicate (n + 1) 0 ++ rest) =
      insertWords { text := text } false (some 0) rest := by
  induction n generalizing previous with
  | zero => exact insertWords_zero text rest previous
  | succ n ih =>
      rw [List.replicate_succ, List.cons_append, insertWords_zero]
      exact ih (some 0)

theorem next_run (text : Text) {previous : Word} (before : previous ≠ 0) (words rest : List Word)
    (nonzero : ∀ word ∈ words, word ≠ 0) :
    ∃ last, last ≠ 0 ∧ insertWords { text := text } false (some previous) (words ++ rest) =
      insertWords { text := text ++ following words } false (some last) rest := by
  induction words generalizing text previous with
  | nil => exact ⟨previous, before, by rw [following, List.flatMap_nil, List.append_nil]; rfl⟩
  | cons word words ih =>
      have here := nonzero word List.mem_cons_self
      obtain ⟨last, other, run⟩ := ih (text ++ ':' :: digits word) here
        fun word mem => nonzero word (List.mem_cons_of_mem _ mem)
      refine ⟨last, other, ?_⟩
      rw [List.cons_append, insertWords_next _ _ before here, run]
      simp [following]

theorem left_run (text : Text) (left rest : List Word) (nonzero : ∀ word ∈ left, word ≠ 0) :
    ∃ previous, previous ≠ some 0 ∧ insertWords { text := text } false none (left ++ rest) =
      insertWords { text := text ++ joined left } false previous rest := by
  rcases left with _ | ⟨word, left⟩
  · refine ⟨none, (Option.some_ne_none 0).symm, ?_⟩
    rw [joined, List.map_nil, List.intercalate_nil, List.append_nil]
    rfl
  · have here := nonzero word List.mem_cons_self
    obtain ⟨last, other, run⟩ := next_run (text ++ digits word) here left rest
      fun word mem => nonzero word (List.mem_cons_of_mem _ mem)
    refine ⟨some last, fun same => other (Option.some.inj same), ?_⟩
    rw [List.cons_append, insertWords_first _ _ here, run, joined_cons, List.append_assoc]
    rfl

theorem right_run (text : Text) {word : Word} (right : List Word) (other : word ≠ 0) :
    insertWords { text := text } false (some 0) (word :: right) =
      ({ text := text ++ ':' :: ':' :: joined (word :: right) }, true) := by
  rw [insertWords_compressed _ _ other, used_run, joined_cons]
  simp [following]

/-! The first run of zeros. -/

theorem zeros_first (words : List Word) :
    ∃ n right, words = List.replicate n 0 ++ right ∧ right.head? ≠ some 0 := by
  induction words with
  | nil => exact ⟨0, [], rfl, (Option.some_ne_none 0).symm⟩
  | cons word rest ih =>
      by_cases zero : word = 0
      · obtain ⟨n, right, rfl, head⟩ := ih
        exact ⟨n + 1, right, by rw [zero, List.replicate_succ, List.cons_append], head⟩
      · exact ⟨0, word :: rest, rfl, fun same => zero (Option.some.inj same)⟩

theorem first_run (words : List Word) :
    ∃ left, (∀ word ∈ left, word ≠ 0) ∧ (words = left ∨
      ∃ n right, words = left ++ (List.replicate (n + 1) 0 ++ right) ∧
        right.head? ≠ some 0) := by
  induction words with
  | nil => exact ⟨[], fun _ mem => absurd mem List.not_mem_nil, Or.inl rfl⟩
  | cons word rest ih =>
      by_cases zero : word = 0
      · obtain ⟨n, right, rfl, head⟩ := zeros_first rest
        refine ⟨[], fun _ mem => absurd mem List.not_mem_nil, Or.inr ⟨n, right, ?_, head⟩⟩
        rw [zero, List.nil_append, List.replicate_succ, List.cons_append]
      · obtain ⟨left, nonzero, shape⟩ := ih
        refine ⟨word :: left, List.forall_mem_cons.mpr ⟨zero, nonzero⟩, ?_⟩
        rcases shape with rfl | ⟨n, right, rfl, head⟩
        · exact Or.inl rfl
        · exact Or.inr ⟨n, right, rfl, head⟩

theorem insert_text (addr : SockAddrIn6) (before body : Text) (used_zeros : Bool) (written : Text)
    (run : insertWords { text := before ++ ['['] } false none (words addr.s6_addr) =
      ({ text := before ++ '[' :: written }, used_zeros))
    (closed : body = if used_zeros = false ∧ (words addr.s6_addr).getLast? = some 0
      then written ++ [':', ':'] else written) :
    (insert addr { text := before }).text = before ++ '[' :: (body ++ ']' :: ':' ::
      Nat.toDigits 10 (byteswapOnLittleEndian addr.sin6_port).toNat) := by
  have opened : ({ text := before } : OStream).put ['['] = { text := before ++ ['['] } := rfl
  simp only [insert, opened, run, closed]
  by_cases last : used_zeros = false ∧ (words addr.s6_addr).getLast? = some 0
  · simp only [if_pos last]
    simp [OStream.number, OStream.put]
  · simp only [if_neg last]
    simp [OStream.number, OStream.put]

/-- The first run of zeros is compressed, whatever its length. -/
theorem insert_body (addr : SockAddrIn6) (before : Text) :
    ∃ body, (insert addr { text := before }).text = before ++ '[' :: (body ++ ']' :: ':' ::
        Nat.toDigits 10 (byteswapOnLittleEndian addr.sin6_port).toNat) ∧
      (body = joined (words addr.s6_addr) ∨
        ∃ left n right, words addr.s6_addr = left ++ (List.replicate (n + 1) 0 ++ right) ∧
          body = joined left ++ ':' :: ':' :: joined right) := by
  obtain ⟨left, nonzero, shape⟩ := first_run (words addr.s6_addr)
  -- without zeros, with zeros up to the end, and with words after them
  rcases shape with whole | ⟨n, right, split, head⟩
  · obtain ⟨previous, _, run⟩ := left_run (before ++ ['[']) left [] nonzero
    have last : (words addr.s6_addr).getLast? ≠ some 0 := by
      intro zero
      rw [whole] at zero
      exact nonzero 0 (List.mem_of_getLast? zero) rfl
    rw [List.append_nil, insertWords, List.append_assoc] at run
    refine ⟨joined left, insert_text addr before (joined left) false (joined left) ?_ ?_,
      Or.inl (by rw [whole])⟩
    · rw [whole, run]
      rfl
    · rw [if_neg fun both => last both.2]
  · obtain ⟨previous, _, run⟩ := left_run (before ++ ['[']) left
      (List.replicate (n + 1) 0 ++ right) nonzero
    rw [zeros_run] at run
    refine ⟨joined left ++ ':' :: ':' :: joined right, ?_, Or.inr ⟨left, n, right, split, rfl⟩⟩
    rcases right with _ | ⟨word, right⟩
    · refine insert_text addr before _ false (joined left) ?_ ?_
      · rw [split, run, insertWords, List.append_assoc]
        rfl
      · have last : (words addr.s6_addr).getLast? = some 0 := by
          rw [split, List.append_nil, List.replicate_succ', ← List.append_assoc]
          exact List.getLast?_concat
        rw [if_pos ⟨rfl, last⟩]
        rfl
    · have other : word ≠ 0 := fun same => head (congrArg some same)
      refine insert_text addr before _ true (joined left ++ ':' :: ':' :: joined (word :: right))
        ?_ ?_
      · rw [split, run, right_run _ _ other, List.append_assoc, List.append_assoc]
        rfl
      · rw [if_neg fun both => Bool.noConfusion both.1]

/-! The bytes of the words. -/

theorem byteswap_append (high low : Byte) : byteswapOnLittleEndian (high ++ low) = low ++ high := by
  have low_byte : (high ++ low).extractLsb' 0 8 = low := by
    rw [BitVec.extractLsb'_append_eq_of_add_le (Nat.le_refl 8), BitVec.extractLsb'_eq_self]
  have high_byte : (high ++ low).extractLsb' 8 8 = high := by
    rw [BitVec.extractLsb'_append_eq_of_le (Nat.le_refl 8), Nat.sub_self,
      BitVec.extractLsb'_eq_self]
  rw [byteswapOnLittleEndian, low_byte, high_byte]

theorem byteswap_twice (value : Word) :
    byteswapOnLittleEndian (byteswapOnLittleEndian value) = value := by
  rw [byteswapOnLittleEndian.eq_1 value, byteswap_append]
  exact BitVec.extractLsb'_append_extractLsb'

theorem bytesOf_byteswap (high low : Byte) :
    bytesOf (byteswapOnLittleEndian (high ++ low)) = [low, high] := by
  rw [byteswap_append, bytesOf, BitVec.extractLsb'_append_eq_of_le (Nat.le_refl 8), Nat.sub_self,
    BitVec.extractLsb'_eq_self, BitVec.extractLsb'_append_eq_of_add_le (Nat.le_refl 8),
    BitVec.extractLsb'_eq_self]

theorem words_bytes (addr : In6Addr) :
    ((words addr).map byteswapOnLittleEndian).flatMap bytesOf = addr.toList := by
  have split : addr.toList = List.ofFn fun j : Fin (2 * 8) => addr.get j := by
    rw [← Vector.toList_ofFn]
    exact congrArg Vector.toList Vector.ofFn_getElem.symm
  rw [split, List.ofFn_mul', words, List.map_ofFn, List.flatMap_def, List.map_ofFn]
  congr 2
  funext i
  simp only [Function.comp_apply, bytesOf_byteswap]
  rfl

theorem readsBack_insert (addr : SockAddrIn6) (port : Word) (before : Text) :
    ∃ written, (insert (addr.setPort port) { text := before }).text = before ++ written ∧
      ReadsBack addr.s6_addr port written := by
  obtain ⟨body, text, shape⟩ := insert_body (addr.setPort port) before
  have swapped : byteswapOnLittleEndian (addr.setPort port).sin6_port = port := byteswap_twice port
  rw [swapped] at text
  refine ⟨_, text, body, rfl, ?_⟩
  change body = joined (words addr.s6_addr) ∨ ∃ left n right, words addr.s6_addr = _ ∧ _ at shape
  have eight : (words addr.s6_addr).length = 8 := List.length_ofFn
  have bytes := words_bytes addr.s6_addr
  rcases shape with rfl | ⟨left, n, right, split, rfl⟩
  · refine ⟨not_mem_joined (by decide) (by decide) _, ?_, ?_⟩
    · have colons := doubleColons_joined (words addr.s6_addr) []
      rw [List.append_nil] at colons
      rw [colons]
      exact Nat.zero_le 1
    · rw [parse, parseGroups_full eight, Option.map_some]
      exact congrArg some bytes
  · refine ⟨?_, Nat.le_of_eq (doubleColons_compressed left right), ?_⟩
    · have plain := not_mem_joined (c := ']') (by decide) (by decide)
      simp [plain left, plain right]
    · rw [split, List.length_append, List.length_append, List.length_replicate] at eight
      -- `::` stands for as many zeros as were left out
      have run : 8 - (left.length + right.length) = n + 1 := by omega
      have groups : left.map byteswapOnLittleEndian ++ List.replicate (n + 1) 0 ++
          right.map byteswapOnLittleEndian =
            (words addr.s6_addr).map byteswapOnLittleEndian := by
        rw [split, List.map_append, List.map_append, List.map_replicate, List.append_assoc]
        rfl
      rw [parse, parseGroups_compressed (by omega), run, groups, Option.map_some]
      exact congrArg some bytes

end Ztyco.IpAddresses
