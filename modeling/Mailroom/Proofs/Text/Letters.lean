import Mathlib.Data.List.Basic
import Mathlib.Data.List.TakeWhile
import Mailroom.Text.Base64

/-! Texts in bytes and in letters, read back. A character's bytes read as that character, whatever
follows them, and letters written for bytes stand for these bytes, so a text that is written in
letters is read as it was. -/

namespace Mailroom.Text

/-! ### Bytes -/

/-- A byte inside a character, with more of them to come. -/
theorem readBytes_next {p : Pending} {b : Nat} (rest : List Nat) (hneeded : 1 < p.needed)
    (hlow : p.lower ≤ b) (hhigh : b ≤ p.upper) :
    readBytes p (b :: rest) =
      readBytes { needed := p.needed - 1, bits := p.bits * 0x40 + (b - 0x80) } rest := by
  rw [readBytes, if_neg (by omega), if_pos (by simp [hlow, hhigh]), if_neg (by omega)]

/-- The last byte of a character. -/
theorem readBytes_last {p : Pending} {b n : Nat} (rest : List Nat) (hneeded : p.needed = 1)
    (hlow : p.lower ≤ b) (hhigh : b ≤ p.upper) (hn : p.bits * 0x40 + (b - 0x80) = n) :
    readBytes p (b :: rest) = Char.ofNat n :: readBytes {} rest := by
  rw [readBytes, if_neg (by omega), if_pos (by simp [hlow, hhigh]), if_pos hneeded, hn]

/-- The first byte of a character of several bytes. -/
theorem readBytes_first {b : Nat} {p : Pending} (rest : List Nat) (h : startOf b = ([], p)) :
    readBytes {} (b :: rest) = readBytes p rest := by
  rw [readBytes, if_pos rfl, h]
  rfl

theorem startOf_two {n : Nat} (hlow : 0x80 ≤ n) (hhigh : n < 0x800) :
    startOf (0xC0 + n / 0x40) = ([], { needed := 1, bits := n / 0x40 }) := by
  rw [startOf, if_neg (by omega), if_neg (by omega), if_pos (by omega), Nat.add_sub_cancel_left]

/-- The first of three bytes. The bounds of the second one keep out what two bytes can say, and
surrogates. -/
theorem startOf_three {n : Nat} (hlow : 0x800 ≤ n) (hhigh : n < 0x10000)
    (hvalid : n < 0xD800 ∨ 0xE000 ≤ n) :
    ∃ p : Pending, startOf (0xE0 + n / 0x1000) = ([], p) ∧ p.needed = 2 ∧ p.bits = n / 0x1000 ∧
      p.lower ≤ 0x80 + n / 0x40 % 0x40 ∧ 0x80 + n / 0x40 % 0x40 ≤ p.upper := by
  rw [startOf, if_neg (by omega), if_neg (by omega), if_neg (by omega)]
  split
  · refine ⟨_, rfl, rfl, ?_, ?_, ?_⟩ <;> dsimp only <;> omega
  · split
    · refine ⟨_, rfl, rfl, ?_, ?_, ?_⟩ <;> dsimp only <;> omega
    · rw [if_pos (by omega)]
      refine ⟨_, rfl, rfl, ?_, ?_, ?_⟩ <;> dsimp only <;> omega

/-- The first of four bytes. The bounds of the second one keep out what three bytes can say, and
what is beyond the last character. -/
theorem startOf_four {n : Nat} (hlow : 0x10000 ≤ n) (hhigh : n < 0x110000) :
    ∃ p : Pending, startOf (0xF0 + n / 0x40000) = ([], p) ∧ p.needed = 3 ∧ p.bits = n / 0x40000 ∧
      p.lower ≤ 0x80 + n / 0x1000 % 0x40 ∧ 0x80 + n / 0x1000 % 0x40 ≤ p.upper := by
  rw [startOf, if_neg (by omega), if_neg (by omega), if_neg (by omega), if_neg (by omega),
    if_neg (by omega), if_neg (by omega)]
  split
  · refine ⟨_, rfl, rfl, ?_, ?_, ?_⟩ <;> dsimp only <;> omega
  · split
    · refine ⟨_, rfl, rfl, ?_, ?_, ?_⟩ <;> dsimp only <;> omega
    · rw [if_pos (by omega)]
      refine ⟨_, rfl, rfl, ?_, ?_, ?_⟩ <;> dsimp only <;> omega

/-- The bytes of a character read as the character, whatever follows them. -/
theorem readBytes_bytesOf (c : Char) (rest : List Nat) :
    readBytes {} (bytesOf c ++ rest) = c :: readBytes {} rest := by
  obtain ⟨n, hn⟩ : ∃ n, c.toNat = n := ⟨_, rfl⟩
  have hvalid : n < 0xD800 ∨ 0xE000 ≤ n ∧ n < 0x110000 := by
    have h := c.valid
    simp only [UInt32.isValidChar, Nat.isValidChar] at h
    simp only [Char.toNat] at hn
    omega
  have hself : Char.ofNat n = c := hn ▸ Char.ofNat_toNat c
  simp only [bytesOf, hn]
  by_cases hone : n < 0x80
  · rw [if_pos hone, List.singleton_append, readBytes, if_pos rfl, startOf, if_pos hone, hself]
    rfl
  rw [if_neg hone]
  by_cases htwo : n < 0x800
  · have hlast := readBytes_last (p := { needed := 1, bits := n / 0x40 }) (b := 0x80 + n % 0x40)
      (n := n) rest rfl (by dsimp only; omega) (by dsimp only; omega) (by dsimp only; omega)
    rw [if_pos htwo, List.cons_append, readBytes_first _ (startOf_two (by omega) htwo),
      List.singleton_append, hlast, hself]
  rw [if_neg htwo]
  by_cases hthree : n < 0x10000
  · obtain ⟨p, hstart, hneeded, hbits, hlow, hhigh⟩ :=
      startOf_three (n := n) (by omega) hthree (by omega)
    rw [if_pos hthree, List.cons_append, readBytes_first _ hstart, List.cons_append,
      readBytes_next _ (by omega) hlow hhigh, List.singleton_append,
      readBytes_last (n := n) _ (by rw [hneeded]) (by dsimp only; omega) (by dsimp only; omega)
        (by dsimp only; omega), hself]
  · obtain ⟨p, hstart, hneeded, hbits, hlow, hhigh⟩ := startOf_four (n := n) (by omega) (by omega)
    rw [if_neg hthree, List.cons_append, readBytes_first _ hstart, List.cons_append,
      readBytes_next _ (by omega) hlow hhigh, List.cons_append,
      readBytes_next _ (by dsimp only; omega) (by dsimp only; omega) (by dsimp only; omega),
      List.singleton_append,
      readBytes_last (n := n) _ (by dsimp only; omega) (by dsimp only; omega)
        (by dsimp only; omega) (by dsimp only; omega), hself]

/-- The bytes of a text read as the text. -/
theorem ofBytes_toBytes (s : String) : ofBytes (toBytes s) = s := by
  have hread : ∀ cs : List Char, readBytes {} (cs.flatMap bytesOf) = cs := by
    intro cs
    induction cs with
    | nil => rfl
    | cons c cs ih => rw [List.flatMap_cons, readBytes_bytesOf, ih]
  rw [ofBytes, toBytes, hread, String.ofList_toList]

theorem bytesOf_lt (c : Char) : ∀ b ∈ bytesOf c, b < 256 := by
  have hvalid := c.valid
  simp only [UInt32.isValidChar, Nat.isValidChar] at hvalid
  have hsize : c.toNat < 0x110000 := by
    simp only [Char.toNat]
    omega
  simp only [bytesOf]
  repeat' split
  all_goals
    simp only [List.forall_mem_cons, List.not_mem_nil, false_imp_iff, implies_true, and_true]
    omega

/-! ### Letters -/

theorem sixBits?_letterOf : ∀ n < 64, sixBits? (letterOf n) = some n := by decide +kernel

theorem letterOf_ne_padding : ∀ n < 64, letterOf n ≠ '=' := by decide +kernel

/-- Bytes in groups of six bits, the last one filled up with zeros. -/
def sextets : List Nat → List Nat
  | [] => []
  | [a] => [a / 4, a % 4 * 16]
  | [a, b] => [a / 4, a % 4 * 16 + b / 16, b % 16 * 4]
  | a :: b :: c :: rest =>
    a / 4 :: (a % 4 * 16 + b / 16) :: (b % 16 * 4 + c / 64) :: c % 64 :: sextets rest

theorem lettersOf_eq (bytes : List Nat) : lettersOf bytes = (sextets bytes).map letterOf := by
  fun_induction sextets bytes with
  | case1 | case2 | case3 => rfl
  | case4 a b c rest ih => simp only [lettersOf, ih, List.map_cons]

theorem sextets_lt {bytes : List Nat} (h : ∀ b ∈ bytes, b < 256) :
    ∀ n ∈ sextets bytes, n < 64 := by
  fun_induction sextets bytes with
  | case1 => simp
  | case2 a =>
    have ha : a < 256 := h a (by simp)
    simp only [List.forall_mem_cons]
    exact ⟨by omega, by omega, by simp⟩
  | case3 a b =>
    have ha : a < 256 := h a (by simp)
    have hb : b < 256 := h b (by simp)
    simp only [List.forall_mem_cons]
    exact ⟨by omega, by omega, by omega, by simp⟩
  | case4 a b c rest ih =>
    simp only [List.forall_mem_cons] at h ⊢
    exact ⟨by omega, by omega, by omega, by omega, ih h.2.2.2⟩

/-- The groups of bytes are the bytes, whatever their number leaves over from threes. -/
theorem bytesOfGroups_sextets {bytes : List Nat} (h : ∀ b ∈ bytes, b < 256) :
    bytesOfGroups (sextets bytes) = bytes := by
  fun_induction sextets bytes with
  | case1 => rfl
  | case2 a =>
    have ha : a < 256 := h a (by simp)
    simp only [bytesOfGroups, List.cons.injEq, and_true]
    omega
  | case3 a b =>
    have ha : a < 256 := h a (by simp)
    have hb : b < 256 := h b (by simp)
    simp only [bytesOfGroups, List.cons.injEq, and_true]
    omega
  | case4 a b c rest ih =>
    simp only [List.forall_mem_cons] at h
    simp only [bytesOfGroups, ih h.2.2.2, List.cons.injEq, and_true]
    omega

/-- A text that is written in letters is read as it was. -/
theorem decodeLetters_encodeLetters (s : String) : decodeLetters (encodeLetters s) = s := by
  have hbytes : ∀ b ∈ toBytes s, b < 256 := by
    intro b hb
    obtain ⟨c, -, hb⟩ := List.mem_flatMap.mp hb
    exact bytesOf_lt c b hb
  have hsextets := sextets_lt hbytes
  have hall : (lettersOf (toBytes s)).takeWhile (· != '=') = lettersOf (toBytes s) := by
    rw [List.takeWhile_eq_self_iff, lettersOf_eq]
    intro c hc
    obtain ⟨n, hn, rfl⟩ := List.mem_map.mp hc
    simpa using letterOf_ne_padding n (hsextets n hn)
  have hgroups : (lettersOf (toBytes s)).filterMap sixBits? = sextets (toBytes s) := by
    have hread : (sextets (toBytes s)).filterMap (fun n => sixBits? (letterOf n)) =
        (sextets (toBytes s)).map id :=
      List.filterMap_eq_map_iff_forall_eq_some.mpr fun n hn => sixBits?_letterOf n (hsextets n hn)
    rw [lettersOf_eq, List.filterMap_map]
    exact hread.trans (List.map_id _)
  rw [decodeLetters, encodeLetters, String.toList_ofList, hall, hgroups,
    bytesOfGroups_sextets hbytes, ofBytes_toBytes]

end Mailroom.Text
