import GitOpsPromoter.Resources
import Mathlib.Data.Nat.Digits

/-!
# Object names and label values

`KubeSafeUniqueName` derives the name of an environment's ProposedCommit from the strategy
name and the branch, and `KubeSafeLabel` turns any string into the value of a label.  Both
first replace every run of characters other than ASCII letters and digits by one `-`
(`m1.ReplaceAllString`), so everything after that step is ASCII and Go's byte indices are
character indices.

`KubeSafeLabel` keeps the last 63 characters "so that we can keep the unique hash at the end of
the name".  On a name `KubeSafeUniqueName` made from at most 237 characters it does: the label
ends with the whole hash, right after a dash or as the whole label
(`kubeSafeLabel_of_kubeSafeUniqueName`), so the labels of two such names are equal only when
their hashes are (`hash_eq_of_kubeSafeLabel_eq`).

Neither result is always valid.  A trailing run of separators leaves the label ending in `-`
(`kubeSafeLabel_keeps_trailing_dash`), and on a name of more than 237 characters the final
truncation of `KubeSafeUniqueName` can stop on the `-` before the hash
(`kubeSafeUniqueName_ends_with_dash`).
-/

namespace GitOpsPromoter

/-- `m1.ReplaceAllString(name, "-")` for `m1 = [^a-zA-Z0-9]+`, on the characters of `name`:
each maximal run of characters that are not ASCII letters or digits becomes one `-`.
`inRun` records that the previous character belonged to a run already replaced. -/
def replaceNonAlphanumeric : List Char → Bool → List Char
  | [], _ => []
  | c :: cs, inRun =>
      if c.isAlphanum then c :: replaceNonAlphanumeric cs false
      else if inRun then replaceNonAlphanumeric cs true
      else '-' :: replaceNonAlphanumeric cs true

/-- `m1.ReplaceAllString(name, "-")`. -/
def m1ReplaceAllString (name : String) : List Char :=
  replaceNonAlphanumeric name.data false

theorem replaceNonAlphanumeric_length_le (cs : List Char) (inRun : Bool) :
    (replaceNonAlphanumeric cs inRun).length ≤ cs.length := by
  induction cs generalizing inRun with
  | nil => simp [replaceNonAlphanumeric]
  | cons c cs ih =>
      have := ih true
      have := ih false
      cases inRun <;> by_cases alnum : c.isAlphanum <;>
        simp [replaceNonAlphanumeric, alnum] <;> omega

theorem ne_dash_of_isAlphanum {c : Char} (alnum : c.isAlphanum) : c ≠ '-' := by
  rintro rfl
  exact absurd alnum (by decide)

theorem mem_replaceNonAlphanumeric {c : Char} {cs : List Char} {inRun : Bool}
    (member : c ∈ replaceNonAlphanumeric cs inRun) : c.isAlphanum ∨ c = '-' := by
  induction cs generalizing inRun with
  | nil => simp [replaceNonAlphanumeric] at member
  | cons d cs ih =>
      unfold replaceNonAlphanumeric at member
      split at member
      · rcases List.mem_cons.mp member with rfl | later
        · exact .inl ‹_›
        · exact ih later
      · split at member
        · exact ih member
        · rcases List.mem_cons.mp member with rfl | later
          · exact .inr rfl
          · exact ih later

theorem replaceNonAlphanumeric_single_dashes (cs : List Char) (inRun : Bool) :
    (replaceNonAlphanumeric cs inRun).Chain' (fun a b => a = '-' → b ≠ '-') ∧
      (inRun → (replaceNonAlphanumeric cs inRun).head? ≠ some '-') := by
  induction cs generalizing inRun with
  | nil => simp [replaceNonAlphanumeric]
  | cons c cs ih =>
      unfold replaceNonAlphanumeric
      split
      · rename_i alnum
        refine ⟨List.chain'_cons'.mpr ⟨fun _ _ dash => absurd dash (ne_dash_of_isAlphanum alnum),
          (ih false).1⟩, fun _ => ?_⟩
        simpa using ne_dash_of_isAlphanum alnum
      · split
        · exact ⟨(ih true).1, fun _ => (ih true).2 rfl⟩
        · rename_i notInRun
          exact ⟨List.chain'_cons'.mpr ⟨fun _ next _ same => (ih true).2 rfl (same ▸ next),
            (ih true).1⟩, fun running => absurd running notInRun⟩

/-- `TruncateString`: the first `length` characters (runes) of `str`. -/
def truncateString (str : List Char) (length : Int) : List Char :=
  if length ≤ 0 then [] else str.take length.toNat

/-- `TruncateStringFromBeginning`: the last `length` bytes of `str`.  It is only applied to
the ASCII output of `m1ReplaceAllString`, whose bytes are its characters. -/
def truncateStringFromBeginning (str : List Char) (length : Int) : List Char :=
  if length ≤ 0 then []
  else if (str.length : Int) ≤ length then str
  else str.drop (str.length - length.toNat)

theorem truncateString_of_length_le {str : List Char} {length : Int}
    (fits : (str.length : Int) ≤ length) (positive : 0 < length) :
    truncateString str length = str := by
  rw [truncateString, if_neg (by omega)]
  exact List.take_of_length_le (by omega)

theorem truncateStringFromBeginning_eq_drop (str : List Char) (length : Int) :
    ∃ dropped, truncateStringFromBeginning str length = str.drop dropped := by
  unfold truncateStringFromBeginning
  split
  · exact ⟨str.length, (List.drop_length str).symm⟩
  · split
    · exact ⟨0, rfl⟩
    · exact ⟨_, rfl⟩

theorem length_truncateStringFromBeginning_le (str : List Char) (length : Int) :
    (truncateStringFromBeginning str length).length ≤ length.toNat := by
  unfold truncateStringFromBeginning
  split
  · simp
  · split
    · omega
    · simp only [List.length_drop]
      omega

/-- The UTF-8 encoding of a string, `[]byte(name)` in Go. -/
def utf8Bytes (name : List Char) : List UInt8 :=
  name.flatMap String.utf8EncodeChar

/-- `fnv.New32a()` after `Write(bytes)`, read by `Sum32`: FNV-1a on 32-bit words. -/
def fnv32a (bytes : List UInt8) : UInt32 :=
  bytes.foldl (fun hash byte => (hash ^^^ byte.toUInt32) * 16777619) 2166136261

/-- `fmt.Sprintf("%x", n)`: lower-case hexadecimal digits, most significant first, with no
leading zero (`"0"` for zero). -/
def formatHex (n : Nat) : List Char :=
  if n = 0 then ['0'] else (Nat.digits 16 n).reverse.map Nat.digitChar

/-- The value of a lower-case hexadecimal digit. -/
def hexDigitValue (c : Char) : Nat :=
  if c.isDigit then c.toNat - '0'.toNat else c.toNat - 'a'.toNat + 10

/-- Reading back a string of hexadecimal digits. -/
def parseHex (digits : List Char) : Nat :=
  digits.foldl (fun value c => 16 * value + hexDigitValue c) 0

theorem hexDigitValue_digitChar {d : Nat} (small : d < 16) :
    hexDigitValue (Nat.digitChar d) = d := by
  interval_cases d <;> rfl

theorem digitChar_ne_dash {d : Nat} (small : d < 16) : Nat.digitChar d ≠ '-' := by
  interval_cases d <;> decide

theorem parseHex_formatHex (n : Nat) : parseHex (formatHex n) = n := by
  unfold formatHex
  split
  · subst_vars; rfl
  · have fold : ∀ ds : List Nat, (∀ d ∈ ds, d < 16) →
        parseHex (ds.reverse.map Nat.digitChar) = Nat.ofDigits 16 ds := by
      intro ds small
      induction ds with
      | nil => rfl
      | cons d ds ih =>
          simp only [List.reverse_cons, List.map_append, parseHex, List.foldl_append] at ih ⊢
          rw [ih (fun e member => small e (List.mem_cons_of_mem d member))]
          simp [hexDigitValue_digitChar (small d (List.mem_cons_self d ds)), Nat.ofDigits,
            Nat.add_comm]
    rw [fold _ (fun d member => Nat.digits_lt_base (by norm_num) member), Nat.ofDigits_digits]

theorem formatHex_injective {m n : Nat} (same : formatHex m = formatHex n) : m = n := by
  rw [← parseHex_formatHex m, ← parseHex_formatHex n, same]

theorem dash_not_mem_formatHex (n : Nat) : '-' ∉ formatHex n := by
  unfold formatHex
  split
  · decide
  · simp only [List.mem_map, List.mem_reverse, not_exists, not_and]
    exact fun d member => digitChar_ne_dash (Nat.digits_lt_base (by norm_num) member)

theorem formatHex_length_le_eight {n : Nat} (small : n < 2 ^ 32) : (formatHex n).length ≤ 8 := by
  unfold formatHex
  split
  · simp
  · rename_i nonzero
    have bound := Nat.base_pow_length_digits_le 16 n (by norm_num) nonzero
    have lengthLt : (Nat.digits 16 n).length < 9 :=
      (Nat.pow_lt_pow_iff_right (by norm_num : 1 < 16)).mp (by omega)
    simpa using Nat.lt_succ_iff.mp lengthLt

/-- The name `KubeSafeUniqueName` hashes: separators replaced, then lower-cased
(`strings.ToLower`, on ASCII input). -/
def sanitizedName (name : String) : List Char :=
  (m1ReplaceAllString name).map Char.toLower

/-- `KubeSafeUniqueName`: the sanitised name without a trailing `-`, then `-` and the
hexadecimal FNV-1a hash of the sanitised name, truncated to `255 - len(hash) - 1` characters.
Go indexes `name[len(name)-1]`, which panics on an empty name: that is `none`. -/
def kubeSafeUniqueName (name : String) : Option String :=
  let name := sanitizedName name
  let hash := formatHex (fnv32a (utf8Bytes name)).toNat
  match name.getLast? with
  | none => none
  | some last =>
      let name := if last = '-' then name.dropLast else name
      some ⟨truncateString (name ++ '-' :: hash) (255 - hash.length - 1)⟩

theorem sanitizedName_length_le (name : String) : (sanitizedName name).length ≤ name.length := by
  rw [sanitizedName, List.length_map]
  exact replaceNonAlphanumeric_length_le name.data false

theorem append_dash_cancel {a b x y : List Char} (same : a ++ '-' :: x = b ++ '-' :: y)
    (dashFreeX : '-' ∉ x) (dashFreeY : '-' ∉ y) : x = y := by
  induction a generalizing b with
  | nil =>
      cases b with
      | nil => simpa using same
      | cons c b =>
          simp only [List.nil_append, List.cons_append, List.cons.injEq] at same
          exact absurd (same.2 ▸ List.mem_append_right b (List.mem_cons_self '-' y)) dashFreeX
  | cons c a ih =>
      cases b with
      | nil =>
          simp only [List.nil_append, List.cons_append, List.cons.injEq] at same
          exact absurd (same.2 ▸ List.mem_append_right a (List.mem_cons_self '-' x)) dashFreeY
      | cons d b => exact ih (List.cons.inj same).2

theorem replaceNonAlphanumeric_ne_nil {c : Char} {cs : List Char} :
    replaceNonAlphanumeric (c :: cs) false ≠ [] := by
  by_cases alnum : c.isAlphanum <;> simp [replaceNonAlphanumeric, alnum]

theorem sanitizedName_ne_nil {name : String} (nonempty : name ≠ "") : sanitizedName name ≠ [] := by
  obtain ⟨data⟩ := name
  cases data with
  | nil => exact absurd rfl nonempty
  | cons c cs => simpa [sanitizedName, m1ReplaceAllString] using replaceNonAlphanumeric_ne_nil

theorem kubeSafeUniqueName_congr {name other : String}
    (sameSanitized : sanitizedName name = sanitizedName other) :
    kubeSafeUniqueName name = kubeSafeUniqueName other := by
  simp only [kubeSafeUniqueName, sameSanitized]

theorem uint32_toNat_lt (word : UInt32) : word.toNat < 2 ^ 32 :=
  word.val.isLt

theorem kubeSafeUniqueName_of_length_le {name : String} (nonempty : name ≠ "")
    (short : name.length ≤ 237) :
    ∃ stem, kubeSafeUniqueName name =
      some ⟨stem ++ '-' :: formatHex (fnv32a (utf8Bytes (sanitizedName name))).toNat⟩ := by
  set hash := formatHex (fnv32a (utf8Bytes (sanitizedName name))).toNat with hashEq
  have hashShort : hash.length ≤ 8 := formatHex_length_le_eight (uint32_toNat_lt _)
  have sanitizedShort := sanitizedName_length_le name
  cases lastChar : (sanitizedName name).getLast? with
  | none => exact absurd (List.getLast?_eq_none_iff.mp lastChar) (sanitizedName_ne_nil nonempty)
  | some last =>
      refine ⟨if last = '-' then (sanitizedName name).dropLast else sanitizedName name, ?_⟩
      have stemShort : (if last = '-' then (sanitizedName name).dropLast
          else sanitizedName name).length ≤ 237 := by
        split
        · simp only [List.length_dropLast]; omega
        · omega
      have fits : (((if last = '-' then (sanitizedName name).dropLast else sanitizedName name) ++
          '-' :: hash).length : Int) ≤ 255 - hash.length - 1 := by
        simp only [List.length_append, List.length_cons]
        omega
      simp only [kubeSafeUniqueName, lastChar, ← hashEq, truncateString_of_length_le fits (by omega)]

theorem hash_eq_of_kubeSafeUniqueName_eq {name other : String}
    (nonempty : name ≠ "") (otherNonempty : other ≠ "")
    (short : name.length ≤ 237) (otherShort : other.length ≤ 237)
    (same : kubeSafeUniqueName name = kubeSafeUniqueName other) :
    fnv32a (utf8Bytes (sanitizedName name)) = fnv32a (utf8Bytes (sanitizedName other)) := by
  obtain ⟨stem, nameEq⟩ := kubeSafeUniqueName_of_length_le nonempty short
  obtain ⟨otherStem, otherEq⟩ := kubeSafeUniqueName_of_length_le otherNonempty otherShort
  rw [nameEq, otherEq, Option.some.injEq] at same
  exact UInt32.toNat.inj (formatHex_injective (append_dash_cancel (congrArg String.data same)
    (dash_not_mem_formatHex _) (dash_not_mem_formatHex _)))

theorem join_ne_empty (promotionStrategyName branch : String) :
    promotionStrategyName ++ "-" ++ branch ≠ "" := by
  intro empty
  have lengths := congrArg String.length empty
  rw [String.length_append, String.length_append] at lengths
  have dashLength : "-".length = 1 := rfl
  have emptyLength : "".length = 0 := rfl
  omega

theorem kubeSafeUniqueName_collision_imp_hash_collision (p₁ b₁ p₂ b₂ : String)
    (short₁ : (p₁ ++ "-" ++ b₁).length ≤ 237) (short₂ : (p₂ ++ "-" ++ b₂).length ≤ 237)
    (same : kubeSafeUniqueName (p₁ ++ "-" ++ b₁) = kubeSafeUniqueName (p₂ ++ "-" ++ b₂)) :
    fnv32a (utf8Bytes (sanitizedName (p₁ ++ "-" ++ b₁))) =
      fnv32a (utf8Bytes (sanitizedName (p₂ ++ "-" ++ b₂))) :=
  hash_eq_of_kubeSafeUniqueName_eq (join_ne_empty p₁ b₁) (join_ne_empty p₂ b₂) short₁ short₂ same

theorem envDev_names_collide_with_equal_sanitized_hashes :
    ("ps" ++ "-" ++ "env/dev").length ≤ 237 ∧ ("ps" ++ "-" ++ "env-dev").length ≤ 237 ∧
      kubeSafeUniqueName ("ps" ++ "-" ++ "env/dev") = kubeSafeUniqueName ("ps" ++ "-" ++ "env-dev") ∧
      fnv32a (utf8Bytes (sanitizedName ("ps" ++ "-" ++ "env/dev"))) =
        fnv32a (utf8Bytes (sanitizedName ("ps" ++ "-" ++ "env-dev"))) :=
  have same := kubeSafeUniqueName_congr (by decide)
  ⟨by decide, by decide, same,
    kubeSafeUniqueName_collision_imp_hash_collision _ _ _ _ (by decide) (by decide) same⟩

/-- Two branches that differ only in punctuation get the same ProposedCommit name, although
the FNV-1a hashes of the raw joined names differ. -/
theorem kubeSafeUniqueName_collision_without_raw_hash_collision :
    ("ps", "env/dev") ≠ ("ps", "env-dev") ∧
      kubeSafeUniqueName ("ps" ++ "-" ++ "env/dev") = kubeSafeUniqueName ("ps" ++ "-" ++ "env-dev") ∧
      fnv32a (utf8Bytes ("ps" ++ "-" ++ "env/dev").data) ≠
        fnv32a (utf8Bytes ("ps" ++ "-" ++ "env-dev").data) :=
  ⟨by decide, kubeSafeUniqueName_congr (by decide), by decide⟩

/-- A character of an object name: a lower-case ASCII letter, a digit or `-`. -/
def isObjectNameChar (c : Char) : Bool :=
  c.isLower || c.isDigit || c == '-'

/-- A valid object name: at most 253 characters of `[a-z0-9-]`, beginning and ending with a
letter or digit. -/
def isObjectName (name : String) : Bool :=
  name.length ≤ 253 && name.data.head?.any Char.isAlphanum &&
    name.data.getLast?.any Char.isAlphanum && name.data.all isObjectNameChar

theorem toNat_lt_of_isAlphanum {c : Char} (alnum : c.isAlphanum) : c.toNat < 128 := by
  simp only [Char.isAlphanum, Char.isAlpha, Char.isUpper, Char.isLower, Char.isDigit,
    Bool.or_eq_true, Bool.and_eq_true, decide_eq_true_eq, UInt32.le_def, BitVec.le_def,
    UInt32.toBitVec_ofNat, BitVec.toNat_ofNat, Nat.reducePow, Nat.reduceMod] at alnum
  have toNatEq : c.toNat = c.val.toBitVec.toNat := rfl
  omega

theorem toLower_of_lt_128 : ∀ n < 128,
    (Char.ofNat n).toLower.isAlphanum = (Char.ofNat n).isAlphanum ∧
      isObjectNameChar (Char.ofNat n).toLower = ((Char.ofNat n).isAlphanum || Char.ofNat n == '-') := by
  decide

theorem isAlphanum_toLower {c : Char} (alnum : c.isAlphanum) : c.toLower.isAlphanum := by
  have kept := (toLower_of_lt_128 c.toNat (toNat_lt_of_isAlphanum alnum)).1
  rw [Char.ofNat_toNat] at kept
  exact kept.trans alnum

theorem isObjectNameChar_toLower {c : Char} (allowed : c.isAlphanum ∨ c = '-') :
    isObjectNameChar c.toLower := by
  rcases allowed with alnum | rfl
  · have lowered := (toLower_of_lt_128 c.toNat (toNat_lt_of_isAlphanum alnum)).2
    rw [Char.ofNat_toNat, alnum, Bool.true_or] at lowered
    exact lowered
  · decide

theorem isAlphanum_of_isObjectNameChar {c : Char} (allowed : isObjectNameChar c)
    (notDash : c ≠ '-') : c.isAlphanum := by
  simp only [isObjectNameChar, Bool.or_eq_true, beq_iff_eq] at allowed
  simp only [Char.isAlphanum, Char.isAlpha, Bool.or_eq_true]
  rcases allowed with (lower | digit) | dash
  · exact .inl (.inr lower)
  · exact .inr digit
  · exact absurd dash notDash

theorem mem_formatHex {c : Char} {n : Nat} (member : c ∈ formatHex n) :
    c.isAlphanum ∧ isObjectNameChar c := by
  unfold formatHex at member
  split at member
  · rw [List.mem_singleton.mp member]
    decide
  · obtain ⟨d, digit, rfl⟩ := List.mem_map.mp member
    have small := Nat.digits_lt_base (by norm_num) (List.mem_reverse.mp digit)
    interval_cases d <;> decide

theorem isObjectNameChar_of_mem_sanitizedName {name : String} {c : Char}
    (member : c ∈ sanitizedName name) : isObjectNameChar c := by
  obtain ⟨original, kept, rfl⟩ := List.mem_map.mp member
  exact isObjectNameChar_toLower (mem_replaceNonAlphanumeric kept)

theorem truncateString_eq_take (str : List Char) {length : Int} (positive : 0 < length) :
    truncateString str length = str.take length.toNat := by
  rw [truncateString, if_neg (by omega)]

theorem replaceNonAlphanumeric_replicate (n : Nat) {c : Char} (alnum : c.isAlphanum)
    (inRun : Bool) : replaceNonAlphanumeric (List.replicate n c) inRun = List.replicate n c := by
  induction n generalizing inRun with
  | zero => rfl
  | succ n ih => simp [List.replicate_succ, replaceNonAlphanumeric, alnum, ih]

theorem formatHex_length_eq {n k : Nat} (lower : 16 ^ k ≤ n) (upper : n < 16 ^ (k + 1)) :
    (formatHex n).length = k + 1 := by
  have positive : n ≠ 0 := Nat.pos_iff_ne_zero.mp (lt_of_lt_of_le (Nat.pos_pow_of_pos k (by norm_num)) lower)
  rw [formatHex, if_neg positive, List.length_map, List.length_reverse,
    Nat.digits_len 16 n (by norm_num) positive, Nat.log_eq_of_pow_le_of_lt_pow lower upper]

/-- A joined name of 246 characters whose hash has seven hexadecimal digits. -/
def longJoinedName : String :=
  ⟨['p', 's', '-'] ++ List.replicate 243 'a'⟩

set_option maxRecDepth 8000 in
/-- The truncation to `255 - 7 - 1 = 247` characters keeps the 246 characters of the name and
the `-` before the hash, so the result ends with `-`. -/
theorem kubeSafeUniqueName_ends_with_dash :
    (∃ c rest, longJoinedName.data = c :: rest ∧ c.isAlphanum) ∧
      kubeSafeUniqueName longJoinedName = some ⟨longJoinedName.data ++ ['-']⟩ ∧
      isObjectName ⟨longJoinedName.data ++ ['-']⟩ = false := by
  have sanitized : sanitizedName longJoinedName = longJoinedName.data := by
    simp [sanitizedName, m1ReplaceAllString, longJoinedName, replaceNonAlphanumeric,
      replaceNonAlphanumeric_replicate, List.map_replicate]
  have hashValue : (fnv32a (utf8Bytes longJoinedName.data)).toNat = 0xbe641c4 := by decide
  have hashLength : (formatHex 0xbe641c4).length = 7 :=
    formatHex_length_eq (by norm_num) (by norm_num)
  have lastChar : longJoinedName.data.getLast? = some 'a' := by simp [longJoinedName]
  have length : longJoinedName.data.length = 246 := by simp [longJoinedName]
  refine ⟨⟨'p', _, rfl, rfl⟩, ?_, by simp [isObjectName]⟩
  simp only [kubeSafeUniqueName, sanitized, hashValue, hashLength, lastChar,
    if_neg (by decide : ('a' : Char) ≠ '-'),
    truncateString_eq_take _ (by decide : (0 : Int) < 255 - (7 : Nat) - 1),
    (by decide : ((255 : Int) - (7 : Nat) - 1).toNat = 247)]
  rw [List.take_append_eq_append_take, List.take_of_length_le (by omega), length]
  rfl

/-- `KubeSafeLabel`: separators replaced, the last 63 characters kept, and a leading `-`
dropped.  Go's `name[0]` cannot panic: a non-empty name stays non-empty. -/
def kubeSafeLabel (name : String) : String :=
  if name = "" then ""
  else
    match truncateStringFromBeginning (m1ReplaceAllString name) 63 with
    | '-' :: rest => ⟨rest⟩
    | truncated => ⟨truncated⟩

/-- A character allowed inside a label value. -/
def isLabelValueChar (c : Char) : Bool :=
  c.isAlphanum || c == '-' || c == '_' || c == '.'

/-- A valid label value: at most 63 characters matching
`(([A-Za-z0-9][-A-Za-z0-9_.]*)?[A-Za-z0-9])?`. -/
def isLabelValue (value : String) : Bool :=
  value.length ≤ 63 &&
    (value.data.isEmpty ||
      (value.data.head?.all Char.isAlphanum && value.data.getLast?.all Char.isAlphanum &&
        value.data.all isLabelValueChar))

theorem kubeSafeLabel_shape (name : String) :
    (kubeSafeLabel name).length ≤ 63 ∧
      (∀ c ∈ (kubeSafeLabel name).data, c.isAlphanum ∨ c = '-') ∧
      ∀ c ∈ (kubeSafeLabel name).data.head?, c.isAlphanum := by
  unfold kubeSafeLabel
  split
  · simp
  · obtain ⟨dropped, truncatedEq⟩ := truncateStringFromBeginning_eq_drop (m1ReplaceAllString name) 63
    have short := length_truncateStringFromBeginning_le (m1ReplaceAllString name) 63
    generalize truncateStringFromBeginning (m1ReplaceAllString name) 63 = truncated
      at truncatedEq short ⊢
    subst truncatedEq
    have dashes : ((m1ReplaceAllString name).drop dropped).Chain' (fun a b => a = '-' → b ≠ '-') :=
      (replaceNonAlphanumeric_single_dashes name.data false).1.drop dropped
    have chars : ∀ c ∈ (m1ReplaceAllString name).drop dropped, c.isAlphanum ∨ c = '-' :=
      fun c member => mem_replaceNonAlphanumeric (List.mem_of_mem_drop member)
    split
    · rename_i rest kept
      rw [kept] at chars dashes short
      refine ⟨by simpa using Nat.le_of_succ_le short, fun c member => chars c (.tail _ member),
        fun c first => ?_⟩
      exact (chars c (.tail _ (List.mem_of_mem_head? first))).resolve_right
        ((List.chain'_cons'.mp dashes).1 c first rfl)
    · rename_i noDash
      refine ⟨short, chars, fun c first => (chars c (List.mem_of_mem_head? first)).resolve_right ?_⟩
      rintro rfl
      obtain ⟨rest, kept⟩ := List.head?_eq_some_iff.mp first
      exact noDash rest kept

/-- A trailing dash is the only way `KubeSafeLabel` misses a label value: its result is valid
exactly when it does not end with `-`. -/
theorem isLabelValue_kubeSafeLabel_iff (name : String) :
    isLabelValue (kubeSafeLabel name) = true ↔ (kubeSafeLabel name).data.getLast? ≠ some '-' := by
  obtain ⟨short, chars, first⟩ := kubeSafeLabel_shape name
  generalize kubeSafeLabel name = label at short chars first ⊢
  have valueChars : label.data.all isLabelValueChar := List.all_eq_true.mpr fun c member => by
    rcases chars c member with alnum | rfl
    · simp [isLabelValueChar, alnum]
    · rfl
  have firstAlnum : label.data.head?.all Char.isAlphanum := by
    cases head : label.data.head? with
    | none => rfl
    | some c => simpa using first c head
  simp only [isLabelValue, short, decide_True, valueChars, firstAlnum, Bool.true_and, Bool.and_true]
  cases last : label.data.getLast? with
  | none => simp
  | some c =>
      have lastChar := chars c (List.mem_of_getLast?_eq_some last)
      simp only [Option.all_some, Bool.or_eq_true, List.isEmpty_iff, ne_eq, Option.some.injEq]
      constructor
      · rintro (empty | alnum)
        · simp [empty] at last
        · exact ne_dash_of_isAlphanum alnum
      · exact fun notDash => .inr (lastChar.resolve_right notDash)

/-- A branch ending in a separator keeps a trailing `-` in its label value. -/
theorem kubeSafeLabel_keeps_trailing_dash :
    kubeSafeLabel "env/dev_" = "env-dev-" ∧ isLabelValue (kubeSafeLabel "env/dev_") = false := by
  decide

/-- Letters, digits and dashes, never two dashes in a row: what `m1.ReplaceAllString` writes. -/
def SingleDashes (cs : List Char) : Prop :=
  (∀ c ∈ cs, c.isAlphanum ∨ c = '-') ∧ cs.Chain' fun a b => a = '-' → b ≠ '-'

theorem SingleDashes.take {cs : List Char} (single : SingleDashes cs) (n : Nat) :
    SingleDashes (cs.take n) :=
  ⟨fun c member => single.1 c (List.mem_of_mem_take member), single.2.take n⟩

theorem replaceNonAlphanumeric_of_singleDashes {cs : List Char} (single : SingleDashes cs)
    {inRun : Bool} (start : inRun → cs.head? ≠ some '-') : replaceNonAlphanumeric cs inRun = cs := by
  induction cs generalizing inRun with
  | nil => rfl
  | cons c cs ih =>
      have rest : SingleDashes cs :=
        ⟨fun d member => single.1 d (List.mem_cons_of_mem _ member), single.2.tail⟩
      rcases single.1 c (List.mem_cons_self _ _) with alnum | rfl
      · have tail : replaceNonAlphanumeric cs false = cs :=
          ih rest fun never => absurd never Bool.false_ne_true
        rw [replaceNonAlphanumeric, if_pos alnum, tail]
      · have next : cs.head? ≠ some '-' := fun first =>
          (List.chain'_cons'.mp single.2).1 '-' first rfl rfl
        have tail : replaceNonAlphanumeric cs true = cs := ih rest fun _ => next
        cases inRun
        · simp [replaceNonAlphanumeric, tail]
        · exact absurd rfl (start rfl)

theorem toLower_eq_dash_iff {c : Char} (allowed : c.isAlphanum ∨ c = '-') :
    c.toLower = '-' ↔ c = '-' := by
  rcases allowed with alnum | rfl
  · exact ⟨fun dash => absurd dash (ne_dash_of_isAlphanum (isAlphanum_toLower alnum)),
      fun dash => absurd dash (ne_dash_of_isAlphanum alnum)⟩
  · decide

theorem singleDashes_sanitizedName (name : String) : SingleDashes (sanitizedName name) := by
  refine ⟨fun c member => ?_, ?_⟩
  · by_cases dash : c = '-'
    · exact .inr dash
    · exact .inl (isAlphanum_of_isObjectNameChar (isObjectNameChar_of_mem_sanitizedName member) dash)
  · rw [sanitizedName, m1ReplaceAllString, List.chain'_map]
    refine (List.Chain'.iff_mem.mp (replaceNonAlphanumeric_single_dashes name.data false).1).imp ?_
    rintro a b ⟨aMember, bMember, single⟩ aDash
    rw [toLower_eq_dash_iff (mem_replaceNonAlphanumeric aMember)] at aDash
    rw [ne_eq, toLower_eq_dash_iff (mem_replaceNonAlphanumeric bMember)]
    exact single aDash

theorem singleDashes_append_dash_formatHex {stem : List Char} (single : SingleDashes stem)
    (last : stem.getLast? ≠ some '-') (n : Nat) : SingleDashes (stem ++ '-' :: formatHex n) := by
  have digits : ∀ c ∈ formatHex n, c.isAlphanum := fun c member => (mem_formatHex member).1
  refine ⟨fun c member => ?_, List.chain'_append.mpr ⟨single.2, ?_, ?_⟩⟩
  · rcases List.mem_append.mp member with early | late
    · exact single.1 c early
    · rcases List.mem_cons.mp late with rfl | digit
      · exact .inr rfl
      · exact .inl (digits c digit)
  · refine List.chain'_cons'.mpr ⟨fun c first _ =>
      ne_dash_of_isAlphanum (digits c (List.mem_of_mem_head? first)), ?_⟩
    exact (List.pairwise_of_forall_mem_list fun a member _ _ dash =>
      absurd dash (ne_dash_of_isAlphanum (digits a member))).chain'
  · intro x lastChar _ _ dash
    exact absurd (dash ▸ lastChar) last

theorem singleDashes_stem {name : String} {last : Char}
    (lastChar : (sanitizedName name).getLast? = some last) :
    SingleDashes (if last = '-' then (sanitizedName name).dropLast else sanitizedName name) ∧
      (if last = '-' then (sanitizedName name).dropLast else sanitizedName name).getLast? ≠
        some '-' := by
  have single := singleDashes_sanitizedName name
  split
  · rename_i dash
    subst dash
    refine ⟨List.dropLast_eq_take _ ▸ single.take _, fun doubled => ?_⟩
    have split := List.dropLast_append_getLast? '-' lastChar
    rw [← split] at single
    exact (List.chain'_append.mp single.2).2.2 '-' doubled '-' rfl rfl rfl
  · exact ⟨single, fun dash => ‹¬last = '-'› (Option.some.inj (lastChar.symm.trans dash))⟩

theorem singleDashes_kubeSafeUniqueName {name unique : String}
    (named : kubeSafeUniqueName name = some unique) : SingleDashes unique.data := by
  unfold kubeSafeUniqueName at named
  dsimp only at named
  split at named
  · cases named
  · rename_i last lastChar
    cases named
    obtain ⟨single, notDash⟩ := singleDashes_stem lastChar
    show SingleDashes (truncateString _ _)
    unfold truncateString
    split
    · exact ⟨by simp, List.chain'_nil⟩
    · exact (singleDashes_append_dash_formatHex single notDash _).take _

theorem truncateStringFromBeginning_append {front back : List Char} (fits : back.length ≤ 63) :
    ∃ kept, truncateStringFromBeginning (front ++ back) 63 = kept ++ back := by
  unfold truncateStringFromBeginning
  rw [if_neg (by decide)]
  split
  · exact ⟨front, rfl⟩
  · rename_i long
    rw [List.drop_append_of_le_length (by simp only [List.length_append] at long ⊢; omega)]
    exact ⟨_, rfl⟩

theorem kubeSafeLabel_of_singleDashes {name : String} {front back : List Char}
    (data : name.data = front ++ '-' :: back) (single : SingleDashes name.data)
    (fits : back.length + 1 ≤ 63) :
    ∃ pre, (kubeSafeLabel name).data = pre ++ back ∧ (pre = [] ∨ pre.getLast? = some '-') := by
  have nonempty : name ≠ "" := fun empty => by simp [empty] at data
  obtain ⟨kept, truncated⟩ : ∃ kept,
      truncateStringFromBeginning (front ++ '-' :: back) 63 = kept ++ '-' :: back :=
    truncateStringFromBeginning_append (by simpa using fits)
  rw [kubeSafeLabel, if_neg nonempty, m1ReplaceAllString,
    replaceNonAlphanumeric_of_singleDashes single fun never => absurd never Bool.false_ne_true,
    data, truncated]
  split
  · rename_i rest leading
    cases kept with
    | nil =>
        obtain rfl := (List.cons.inj leading).2
        exact ⟨[], rfl, .inl rfl⟩
    | cons c kept =>
        obtain rfl := (List.cons.inj leading).2
        exact ⟨kept ++ ['-'], by simp, .inr (by simp)⟩
  · exact ⟨kept ++ ['-'], by simp, .inr (by simp)⟩

theorem kubeSafeLabel_of_kubeSafeUniqueName {name unique : String} (nonempty : name ≠ "")
    (short : name.length ≤ 237) (named : kubeSafeUniqueName name = some unique) :
    ∃ pre, (kubeSafeLabel unique).data =
        pre ++ formatHex (fnv32a (utf8Bytes (sanitizedName name))).toNat ∧
      (pre = [] ∨ pre.getLast? = some '-') := by
  obtain ⟨stem, stemNamed⟩ := kubeSafeUniqueName_of_length_le nonempty short
  rw [named, Option.some.injEq] at stemNamed
  have hashShort := formatHex_length_le_eight (uint32_toNat_lt (fnv32a (utf8Bytes (sanitizedName name))))
  exact kubeSafeLabel_of_singleDashes (congrArg String.data stemNamed)
    (singleDashes_kubeSafeUniqueName named) (by omega)

theorem eq_of_append_of_dash_free {pre pre' tail tail' : List Char}
    (same : pre ++ tail = pre' ++ tail') (ends : pre = [] ∨ pre.getLast? = some '-')
    (ends' : pre' = [] ∨ pre'.getLast? = some '-') (dashFree : '-' ∉ tail)
    (dashFree' : '-' ∉ tail') : tail = tail' := by
  have afterLastDash : ∀ {pre tail : List Char}, (pre = [] ∨ pre.getLast? = some '-') →
      '-' ∉ tail → ((pre ++ tail).reverse.takeWhile (· != '-')).reverse = tail := by
    intro pre tail ends dashFree
    have beforeTail : pre.reverse.takeWhile (· != '-') = [] := by
      rcases ends with rfl | last
      · rfl
      · obtain ⟨rest, reversed⟩ := List.head?_eq_some_iff.mp ((List.head?_reverse pre).trans last)
        rw [reversed, List.takeWhile_cons_of_neg (by decide)]
    have tailKept : ∀ c ∈ tail.reverse, (c != '-') = true := fun c member =>
      bne_iff_ne.mpr fun dash => by
        subst dash
        exact dashFree (List.mem_reverse.mp member)
    rw [List.reverse_append, List.takeWhile_append_of_pos tailKept, beforeTail]
    simp
  rw [← afterLastDash ends dashFree, same, afterLastDash ends' dashFree']

/-- Equal labels of the unique names of two names of at most 237 characters come from equal
FNV-1a hashes of the sanitised names: the label keeps the hash the unique name carries. -/
theorem hash_eq_of_kubeSafeLabel_eq {name other unique otherUnique : String}
    (nonempty : name ≠ "") (otherNonempty : other ≠ "") (short : name.length ≤ 237)
    (otherShort : other.length ≤ 237) (named : kubeSafeUniqueName name = some unique)
    (otherNamed : kubeSafeUniqueName other = some otherUnique)
    (same : kubeSafeLabel unique = kubeSafeLabel otherUnique) :
    fnv32a (utf8Bytes (sanitizedName name)) = fnv32a (utf8Bytes (sanitizedName other)) := by
  obtain ⟨pre, label, ends⟩ := kubeSafeLabel_of_kubeSafeUniqueName nonempty short named
  obtain ⟨otherPre, otherLabel, otherEnds⟩ :=
    kubeSafeLabel_of_kubeSafeUniqueName otherNonempty otherShort otherNamed
  have sameData := congrArg String.data same
  rw [label, otherLabel] at sameData
  exact UInt32.toNat.inj (formatHex_injective (eq_of_append_of_dash_free sameData ends otherEnds
    (dash_not_mem_formatHex _) (dash_not_mem_formatHex _)))

theorem hash_eq_of_kubeSafeLabel_eq_of_envDev :
    ("ps" ++ "-" ++ "env/dev") ≠ "" ∧ ("ps" ++ "-" ++ "env-dev") ≠ "" ∧
      ("ps" ++ "-" ++ "env/dev").length ≤ 237 ∧ ("ps" ++ "-" ++ "env-dev").length ≤ 237 ∧
      ∃ unique, kubeSafeUniqueName ("ps" ++ "-" ++ "env/dev") = some unique ∧
        kubeSafeUniqueName ("ps" ++ "-" ++ "env-dev") = some unique ∧
        fnv32a (utf8Bytes (sanitizedName ("ps" ++ "-" ++ "env/dev"))) =
          fnv32a (utf8Bytes (sanitizedName ("ps" ++ "-" ++ "env-dev"))) := by
  obtain ⟨unique, named⟩ : ∃ unique, kubeSafeUniqueName ("ps" ++ "-" ++ "env/dev") = some unique :=
    ⟨_, rfl⟩
  have otherNamed : kubeSafeUniqueName ("ps" ++ "-" ++ "env-dev") = some unique :=
    (kubeSafeUniqueName_congr (by decide)).symm.trans named
  exact ⟨by decide, by decide, by decide, by decide, unique, named, otherNamed,
    hash_eq_of_kubeSafeLabel_eq (by decide) (by decide) (by decide) (by decide) named otherNamed rfl⟩

end GitOpsPromoter
