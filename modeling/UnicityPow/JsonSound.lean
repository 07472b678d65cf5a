import UnicityPow.StringParsing

/-!
# What an escaped string denotes

`char` is signed, so every byte of a multi-byte character is escaped by itself, and a reader gets a
character for each byte.
-/

namespace UnicityPow

open StringLiteral

/-! ## Bytes and characters -/

theorem utf8EncodeChar_low {c : Char} (h : c.toNat < 0x80) : String.utf8EncodeChar c = [UInt8.ofNat c.toNat] := by
  have hv : c.val.toNat ≤ 0x7f := Nat.lt_succ_iff.mp h
  unfold String.utf8EncodeChar
  dsimp only
  rw [if_pos hv]
  rfl

/-- The first byte of a character outside of ASCII has its top bit set. -/
theorem utf8EncodeChar_high {c : Char} (h : 0x80 ≤ c.toNat) : ∃ b ∈ String.utf8EncodeChar c, 0x80 ≤ b.toNat := by
  have hv : ¬ c.val.toNat ≤ 0x7f := Nat.not_le.mpr h
  unfold String.utf8EncodeChar
  dsimp only
  rw [if_neg hv]
  split
  · refine ⟨_, List.mem_cons_self, ?_⟩
    rw [UInt8.toNat_ofNat']
    omega
  · split
    · refine ⟨_, List.mem_cons_self, ?_⟩
      rw [UInt8.toNat_ofNat']
      omega
    · refine ⟨_, List.mem_cons_self, ?_⟩
      rw [UInt8.toNat_ofNat']
      omega

theorem utf8_cons (c : Char) (cs : List Char) : utf8 (c :: cs) = String.utf8EncodeChar c ++ utf8 cs :=
  List.flatMap_cons

theorem utf8_append (cs ds : List Char) : utf8 (cs ++ ds) = utf8 cs ++ utf8 ds := List.flatMap_append

theorem bytesOf_append (s t : String) : bytesOf (s ++ t) = bytesOf s ++ bytesOf t := by
  unfold bytesOf
  rw [String.toList_append, utf8_append]

theorem charsOf_append (bs cs : List UInt8) : charsOf (bs ++ cs) = charsOf bs ++ charsOf cs := List.map_append

theorem toNat_ofNat_byte (b : UInt8) : (Char.ofNat b.toNat).toNat = b.toNat := by
  have hb := b.toNat_lt
  have hvalid : b.toNat.isValidChar := .inl (by omega)
  rw [Char.ofNat, dif_pos hvalid]
  exact UInt32.toNat_ofNatLT ..

/-- Bytes below 0x80 are the UTF-8 of just one text. -/
theorem utf8_eq_iff {text : List Char} : ∀ {bs : List UInt8}, (∀ b ∈ bs, b.toNat < 0x80) →
    (utf8 text = bs ↔ text = charsOf bs) := by
  induction text with
  | nil =>
    intro bs _
    cases bs with
    | nil => simp [utf8, charsOf]
    | cons b bs => simp [utf8, charsOf]
  | cons c cs ih =>
    intro bs hbs
    rw [utf8_cons]
    constructor
    · intro h
      have hc : c.toNat < 0x80 := by
        by_contra hge
        obtain ⟨b, hb, hhigh⟩ := utf8EncodeChar_high (Nat.not_lt.mp hge)
        have := hbs b (by rw [← h]; exact List.mem_append_left _ hb)
        omega
      rw [utf8EncodeChar_low hc] at h
      cases bs with
      | nil => cases h
      | cons b bs =>
        obtain ⟨rfl, hrest⟩ := List.cons.inj h
        have htail := (ih fun d hd => hbs d (List.mem_cons_of_mem _ hd)).mp hrest
        rw [htail]
        simp [charsOf, UInt8.toNat_ofNat', Nat.mod_eq_of_lt (show c.toNat < 256 by omega)]
    · intro h
      cases bs with
      | nil => cases h
      | cons b bs =>
        obtain ⟨rfl, rfl⟩ := List.cons.inj h
        have hb := hbs b List.mem_cons_self
        rw [utf8EncodeChar_low (by rw [toNat_ofNat_byte]; exact hb), toNat_ofNat_byte, UInt8.ofNat_toNat,
          (ih fun d hd => hbs d (List.mem_cons_of_mem _ hd)).mpr rfl]
        rfl

theorem utf8_low {cs : List Char} (h : ∀ c ∈ cs, c.toNat < 0x80) : ∀ b ∈ utf8 cs, b.toNat < 0x80 := by
  intro b hb
  obtain ⟨c, hc, hb⟩ := List.mem_flatMap.mp hb
  have hlow := h c hc
  rw [utf8EncodeChar_low hlow, List.mem_singleton] at hb
  rw [hb, UInt8.toNat_ofNat', Nat.mod_eq_of_lt (by omega)]
  exact hlow

/-! ## One byte -/

/-- The digits of a `\u` escape spell the byte. -/
theorem digits_spell : ∀ n : Fin 256, utf8 ((Nat.toDigits 16 n).leftpad 4 '0') =
      [48, 48, UInt8.ofNat (hexChar (n / 16)).toNat, UInt8.ofNat (hexChar (n % 16)).toNat] ∧
    codeUnit '0' '0' (hexChar (n / 16)) (hexChar (n % 16)) = some n.val ∧
    (hexChar (n / 16)).toNat < 0x80 ∧ (hexChar (n % 16)).toNat < 0x80 := by decide +kernel

/-- A byte is not below the space, read as a signed `char`, when it is a character of ASCII from the space on. -/
theorem plain_byte {c : UInt8} (h : ¬ c.toBitVec.toInt < 0x20) : 0x20 ≤ c.toNat ∧ c.toNat < 0x80 := by
  have hc := c.toNat_lt
  rw [BitVec.toInt_eq_toNat_cond] at h
  change ¬ (if 2 * c.toNat < 2 ^ 8 then (c.toNat : Int) else (c.toNat : Int) - (2 ^ 8 : Nat)) < 0x20 at h
  split at h <;> omega

/-- A byte is escaped by a letter, escaped by its number or left alone. -/
theorem escapeChar_cases (c : UInt8) :
    (∃ e : Char, charsOf (escapeChar c) = ['\\', e] ∧ shortEscape e = some (Char.ofNat c.toNat)) ∨
    (∃ a b : Char, charsOf (escapeChar c) = ['\\', 'u', '0', '0', a, b] ∧ codeUnit '0' '0' a b = some c.toNat) ∨
    (charsOf (escapeChar c) = [Char.ofNat c.toNat] ∧ unescaped (Char.ofNat c.toNat) = true) := by
  unfold escapeChar
  -- the seven cases of the switch
  iterate 7
    split
    · rename_i h
      subst h
      exact .inl ⟨_, rfl, rfl⟩
  rename_i hquote hsolidus _ _ _ _ _
  right
  split
  · left
    obtain ⟨hbytes, hunit, ha, hb⟩ := digits_spell ⟨c.toNat, c.toNat_lt⟩
    dsimp only at hbytes hunit ha hb
    refine ⟨hexChar (c.toNat / 16), hexChar (c.toNat % 16), ?_, hunit⟩
    rw [hbytes, charsOf_append]
    have hchar : ∀ d : Char, d.toNat < 0x80 → Char.ofNat (UInt8.ofNat d.toNat).toNat = d := fun d hd => by
      rw [UInt8.toNat_ofNat', Nat.mod_eq_of_lt (by omega), Char.ofNat_toNat]
    simp only [charsOf, List.map_cons, List.map_nil, hchar _ ha, hchar _ hb]
    rfl
  · rename_i hplain
    right
    have hrange := plain_byte hplain
    have hne : ∀ d : UInt8, c ≠ d → Char.ofNat c.toNat ≠ Char.ofNat d.toNat := fun d h e => h <| by
      have := congrArg Char.toNat e
      rw [toNat_ofNat_byte, toNat_ofNat_byte] at this
      exact UInt8.toNat_inj.mp this
    refine ⟨rfl, ?_⟩
    simp only [unescaped, Bool.and_eq_true, bne_iff_ne, decide_eq_true_eq, toNat_ofNat_byte]
    exact ⟨⟨hne 34 hquote, hne 92 hsolidus⟩, hrange.1⟩

theorem escapeChar_low (c : UInt8) : ∀ b ∈ escapeChar c, b.toNat < 0x80 := by
  unfold escapeChar
  iterate 7
    split
    · intro b hb
      obtain rfl | rfl := List.mem_pair.mp hb <;> decide
  split
  · obtain ⟨hbytes, -, ha, hb⟩ := digits_spell ⟨c.toNat, c.toNat_lt⟩
    dsimp only at hbytes ha hb
    rw [hbytes]
    have hlow : ∀ d : Char, d.toNat < 0x80 → (UInt8.ofNat d.toNat).toNat < 0x80 := fun d hd => by
      rwa [UInt8.toNat_ofNat', Nat.mod_eq_of_lt (by omega)]
    intro b hmem
    rcases List.mem_append.mp hmem with hmem | hmem
    · obtain rfl | rfl := List.mem_pair.mp hmem <;> decide
    · simp only [List.mem_cons, List.not_mem_nil, or_false] at hmem
      rcases hmem with rfl | rfl | rfl | rfl
      · decide
      · decide
      · exact hlow _ ha
      · exact hlow _ hb
  · rename_i hplain
    intro b hb
    obtain rfl := List.mem_singleton.mp hb
    exact (plain_byte hplain).2

theorem body_unicode {a b : Char} {u : Nat} (h : codeUnit '0' '0' a b = some u) (hu : u < 0x100) (cs : List Char) :
    body none ('\\' :: 'u' :: '0' :: '0' :: a :: b :: cs) = (body none cs).map (Char.ofNat u :: ·) := by
  rw [body.eq_1 _ _ _ _ _ _ h, if_neg (by omega), if_neg (by omega)]

theorem body_unescaped {c : Char} (h : unescaped c = true) (cs : List Char) :
    body none (c :: cs) = (body none cs).map (c :: ·) := by
  have hc : c ≠ '"' ∧ c ≠ '\\' := by
    simp only [unescaped, Bool.and_eq_true, bne_iff_ne] at h
    exact h.1
  rw [body.eq_6 c cs (fun _ _ _ _ _ e _ => hc.2 e) (fun _ _ e _ => hc.2 e) (fun e _ => hc.1 e), if_pos h]

theorem body_short {e v : Char} (h : shortEscape e = some v) (cs : List Char) :
    body none ('\\' :: e :: cs) = (body none cs).map (v :: ·) := by
  have he : e ≠ 'u' := by
    rintro rfl
    cases h
  rw [body.eq_4 e cs (fun _ _ _ _ _ hu _ => he hu), h]
  cases body none cs <;> rfl

/-- Of an escaped byte the reader makes the character with the byte's number. -/
theorem body_escapeChar (c : UInt8) (cs : List Char) :
    body none (charsOf (escapeChar c) ++ cs) = (body none cs).map (Char.ofNat c.toNat :: ·) := by
  rcases escapeChar_cases c with ⟨e, hc, he⟩ | ⟨a, b, hc, hunit⟩ | ⟨hc, hplain⟩
  · rw [hc]
    exact body_short he cs
  · rw [hc]
    exact body_unicode hunit c.toNat_lt cs
  · rw [hc]
    exact body_unescaped hplain cs

/-! ## A whole string -/

theorem body_escape (str : List UInt8) (cs : List Char) :
    body none (charsOf (escapeJSONString str) ++ cs) = (body none cs).map (charsOf str ++ ·) := by
  induction str with
  | nil => cases h : body none cs <;> simp [escapeJSONString, charsOf, h]
  | cons c str ih =>
    have hcons : escapeJSONString (c :: str) = escapeChar c ++ escapeJSONString str := List.flatMap_cons
    rw [hcons, charsOf_append, List.append_assoc, body_escapeChar, ih, Option.map_map]
    rfl

/-- The text made of the escaped string between double quotes. -/
def quoted (str : List UInt8) : List UInt8 := bytesOf "\"" ++ escapeJSONString str ++ bytesOf "\""

theorem value_quoted (str : List UInt8) : value (charsOf (quoted str)) = some (charsOf str) := by
  have htext : charsOf (quoted str) = '"' :: (charsOf (escapeJSONString str) ++ ['"']) := by
    unfold quoted
    rw [charsOf_append, charsOf_append]
    rfl
  rw [htext]
  change body none _ = _
  rw [body_escape, body.eq_5]
  simp

theorem quoted_low (str : List UInt8) : ∀ b ∈ quoted str, b.toNat < 0x80 := by
  intro b hb
  have hquote : ∀ b ∈ bytesOf "\"", b.toNat < 0x80 := by
    intro b hb
    obtain rfl := List.mem_singleton.mp hb
    decide
  rcases List.mem_append.mp hb with hb | hb
  · rcases List.mem_append.mp hb with hb | hb
    · exact hquote b hb
    · obtain ⟨c, -, hc⟩ := List.mem_flatMap.mp hb
      exact escapeChar_low c b hc
  · exact hquote b hb

/-- A reader gets the string with a character for each byte. -/
theorem denotes_quoted {str : List UInt8} {s : String} : Denotes (quoted str) s ↔ s.toList = charsOf str := by
  constructor
  · rintro ⟨text, htext, hvalue⟩
    rw [(utf8_eq_iff (quoted_low str)).mp htext, value_quoted] at hvalue
    exact (Option.some.inj hvalue).symm
  · intro h
    exact ⟨charsOf (quoted str), (utf8_eq_iff (quoted_low str)).mpr rfl, by rw [value_quoted, h]⟩

/-! ## Which strings arrive -/

theorem length_utf8_le (cs : List Char) : cs.length ≤ (utf8 cs).length := by
  induction cs with
  | nil => exact Nat.zero_le _
  | cons c cs ih =>
    rw [utf8_cons, List.length_append, String.length_utf8EncodeChar, List.length_cons]
    have := c.utf8Size_pos
    omega

/-- A text with as many bytes as characters is ASCII. -/
theorem ascii_of_length {cs : List Char} (h : (utf8 cs).length = cs.length) : ∀ c ∈ cs, c.toNat < 0x80 := by
  induction cs with
  | nil => simp
  | cons c cs ih =>
    rw [utf8_cons, List.length_append, String.length_utf8EncodeChar, List.length_cons] at h
    have hpos := c.utf8Size_pos
    have hrest := length_utf8_le cs
    intro d hd
    rcases List.mem_cons.mp hd with rfl | hd
    · have hone : d.utf8Size = 1 := by omega
      exact Nat.lt_succ_of_le (Char.utf8Size_eq_one_iff.mp hone)
    · exact ih (by omega) d hd

theorem charsOf_bytesOf_iff (s : String) : s.toList = charsOf (bytesOf s) ↔ ∀ c ∈ s.toList, c.toNat < 0x80 := by
  constructor
  · intro h
    have hlength := congrArg List.length h
    exact ascii_of_length (by rw [hlength]; simp [charsOf, bytesOf])
  · intro h
    exact (utf8_eq_iff (utf8_low h)).mp rfl

/-- The response is an object of one member, `key`, whose value is `s`. -/
def Carries (key : String) (response : List UInt8) (s : String) : Prop :=
  ∃ literal, response = bytesOf "\x7b\"" ++ bytesOf key ++ bytesOf "\":" ++ literal ++ bytesOf "\x7d\n" ∧
    Denotes literal s

theorem carries_iff {key : String} {response str : List UInt8} {s : String}
    (h : response = bytesOf "\x7b\"" ++ bytesOf key ++ bytesOf "\":" ++ quoted str ++ bytesOf "\x7d\n") :
    Carries key response s ↔ Denotes (quoted str) s := by
  constructor
  · rintro ⟨literal, hliteral, hs⟩
    rw [h, List.append_left_inj, List.append_right_inj] at hliteral
    rwa [hliteral]
  · exact fun hs => ⟨quoted str, h, hs⟩

theorem jsonError_eq (str : List UInt8) : jsonError str =
    bytesOf "\x7b\"" ++ bytesOf "error" ++ bytesOf "\":" ++ quoted str ++ bytesOf "\x7d\n" := by
  have hopen : bytesOf "\x7b\"error\":\"" =
      bytesOf "\x7b\"" ++ bytesOf "error" ++ bytesOf "\":" ++ bytesOf "\"" := by
    rw [← bytesOf_append, ← bytesOf_append, ← bytesOf_append]
    rfl
  have hclose : bytesOf "\"\x7d\n" = bytesOf "\"" ++ bytesOf "\x7d\n" := by
    rw [← bytesOf_append]
    rfl
  unfold jsonError quoted
  rw [hopen, hclose]
  simp only [List.append_assoc]

theorem jsonSuccess_eq (str : List UInt8) : jsonSuccess str =
    bytesOf "\x7b\"" ++ bytesOf "result" ++ bytesOf "\":" ++ quoted str ++ bytesOf "\x7d\n" := by
  have hopen : bytesOf "\x7b\"result\":\"" =
      bytesOf "\x7b\"" ++ bytesOf "result" ++ bytesOf "\":" ++ bytesOf "\"" := by
    rw [← bytesOf_append, ← bytesOf_append, ← bytesOf_append]
    rfl
  have hclose : bytesOf "\"\x7d\n" = bytesOf "\"" ++ bytesOf "\x7d\n" := by
    rw [← bytesOf_append]
    rfl
  unfold jsonSuccess quoted
  rw [hopen, hclose]
  simp only [List.append_assoc]

/-- A string is read back from its literal, and from the responses, when it is ASCII and only then. -/
theorem escaped_string_arrives_iff (s : String) :
    (Denotes (quoted (bytesOf s)) s ↔ ∀ c ∈ s.toList, c.toNat < 0x80) ∧
    (Carries "error" (jsonError (bytesOf s)) s ↔ ∀ c ∈ s.toList, c.toNat < 0x80) ∧
    (Carries "result" (jsonSuccess (bytesOf s)) s ↔ ∀ c ∈ s.toList, c.toNat < 0x80) := by
  have hquoted : Denotes (quoted (bytesOf s)) s ↔ ∀ c ∈ s.toList, c.toNat < 0x80 :=
    denotes_quoted.trans (charsOf_bytesOf_iff s)
  exact ⟨hquoted, (carries_iff (jsonError_eq _)).trans hquoted, (carries_iff (jsonSuccess_eq _)).trans hquoted⟩

/-- The two bytes of an accented letter arrive as two letters. -/
theorem accented_letter_doubled :
    ¬ Denotes (quoted (bytesOf "é")) "é" ∧ Denotes (quoted (bytesOf "é")) "Ã©" ∧
      ¬ Carries "error" (jsonError (bytesOf "é")) "é" := by
  have hbytes : bytesOf "é" = [195, 169] := by decide +kernel
  have hchars : charsOf (bytesOf "é") = "Ã©".toList := by
    rw [hbytes]
    rfl
  have hne : "é".toList ≠ charsOf (bytesOf "é") := by decide +kernel
  exact ⟨fun h => hne (denotes_quoted.mp h), denotes_quoted.mpr hchars.symm,
    fun h => hne (denotes_quoted.mp ((carries_iff (jsonError_eq _)).mp h))⟩

end UnicityPow
