import Mathlib.Algebra.Order.Group.Nat
import CoapCpp.Peel
import CoapCpp.RunningSum

/-!
# The message format of RFC 7252

The format drawn in `test/test_packet.cc`, stated on its own terms: what a message is, how it is
written, and how it is read.  Nothing here comes from the code; the rest of the development
compares the code with this file.

* `Rfc7252.Message` is a message as its sender means it, `Message.WellFormed` says which ones the
  format can carry, and `Message.encode` writes one down.
* An option is a delta and a value.  The delta and the length of the value are *fields*: a nibble
  in the first byte of the option, and an extension of up to two bytes behind it.  `takeField`
  reads one field, with the reading of a two-byte extension left open (`networkOrder` is the one
  the format prescribes), and `optionPeeler` takes one option off the front of a list.
* `decode` reads a whole message.  `decode_eq_some_iff` says that it reads exactly what `encode`
  writes: every message has one encoding, and every byte string encodes at most one message.
-/

set_option autoImplicit false

namespace Rfc7252

/-! ## One field -/

/-- The nibble of a field of value `n`. -/
def nibble (n : ℕ) : ℕ := if n < 13 then n else if n < 269 then 13 else 14

/-- The extension of a field of value `n`, in network byte order. -/
def extension (n : ℕ) : List UInt8 :=
  if n < 13 then []
  else if n < 269 then [UInt8.ofNat (n - 13)]
  else [UInt8.ofNat ((n - 269) / 256), UInt8.ofNat ((n - 269) % 256)]

/-- The largest value a field can carry. -/
def maxField : ℕ := 65804

/-- What reading a field finds. -/
inductive Field where
  /-- A value, and what is behind the field. -/
  | value (n : ℕ) (rest : List UInt8)
  /-- The nibble 15, reserved for the payload marker. -/
  | reserved
  /-- The extension is cut off: so many of its bytes are missing. -/
  | short (missing : ℕ)
deriving DecidableEq

/-- Read a field, given its nibble and what is behind the fields read so far.  A two-byte extension
is read by `two`. -/
def takeField (two : UInt8 → UInt8 → ℕ) (nib : ℕ) (l : List UInt8) : Field :=
  if nib < 13 then .value nib l
  else if nib = 13 then
    match l with
    | [] => .short 1
    | a :: l => .value (a.toNat + 13) l
  else if nib = 14 then
    match l with
    | [] => .short 2
    | [_] => .short 1
    | a :: b :: l => .value (two a b) l
  else .reserved

/-- A two-byte extension is in network byte order. -/
def networkOrder (a b : UInt8) : ℕ := a.toNat * 256 + b.toNat + 269

theorem nibble_lt (n : ℕ) : nibble n < 15 := by
  rw [nibble]
  split
  · omega
  · split <;> omega

/-- A field of less than 269 reads back whatever the reading of a two-byte extension is. -/
theorem takeField_extension_of_lt (two : UInt8 → UInt8 → ℕ) {n : ℕ} (h : n < 269)
    (l : List UInt8) : takeField two (nibble n) (extension n ++ l) = .value n l := by
  rw [takeField.eq_def, nibble, extension]
  by_cases h13 : n < 13
  · simp [h13]
  · simp [h13, h]
    omega

/-- **A field reads back from the front of whatever is behind it.** -/
theorem takeField_extension {n : ℕ} (h : n ≤ maxField) (l : List UInt8) :
    takeField networkOrder (nibble n) (extension n ++ l) = .value n l := by
  by_cases h269 : n < 269
  · exact takeField_extension_of_lt networkOrder h269 l
  · rw [maxField] at h
    have hb : networkOrder (UInt8.ofNat ((n - 269) / 256)) (UInt8.ofNat ((n - 269) % 256)) = n := by
      rw [networkOrder, UInt8.toNat_ofNat', UInt8.toNat_ofNat']
      omega
    rw [takeField.eq_def, nibble, extension]
    simp [show ¬ n < 13 by omega, h269, hb]

/-- What was read as a field was written as one: every value has one form. -/
theorem eq_of_takeField {nib n : ℕ} {l rest : List UInt8}
    (h : takeField networkOrder nib l = .value n rest) :
    nib = nibble n ∧ l = extension n ++ rest ∧ n ≤ maxField := by
  rw [takeField.eq_def] at h
  split at h
  · rename_i hnib
    cases h
    simp [nibble, extension, maxField, hnib]
    omega
  · split at h
    · rename_i h13
      split at h
      · cases h
      · rename_i a l
        have ha := a.toNat_lt
        cases h
        refine ⟨?_, ?_, ?_⟩
        · rw [nibble, if_neg (by omega), if_pos (by omega), h13]
        · rw [extension, if_neg (by omega), if_pos (by omega)]; simp
        · rw [maxField]; omega
    · split at h
      · rename_i h14
        split at h
        · cases h
        · cases h
        · rename_i a b l
          have ha := a.toNat_lt
          have hb := b.toNat_lt
          cases h
          refine ⟨?_, ?_, ?_⟩
          · rw [nibble, networkOrder, if_neg (by omega), if_neg (by omega), h14]
          · have hhi : (a.toNat * 256 + b.toNat) / 256 = a.toNat := by omega
            have hlo : (a.toNat * 256 + b.toNat) % 256 = b.toNat := by omega
            rw [extension, networkOrder, if_neg (by omega), if_neg (by omega),
              Nat.add_sub_cancel, hhi, hlo]
            simp
          · rw [maxField, networkOrder]; omega
      · cases h

theorem suffix_of_takeField {two : UInt8 → UInt8 → ℕ} {nib n : ℕ} {l rest : List UInt8}
    (h : takeField two nib l = .value n rest) : rest <:+ l := by
  rw [takeField.eq_def] at h
  split at h
  · cases h; exact List.suffix_rfl
  · split at h
    · split at h
      · cases h
      · cases h; exact List.suffix_cons _ _
    · split at h
      · split at h
        · cases h
        · cases h
        · cases h; exact (List.suffix_cons _ _).trans (List.suffix_cons _ _)
      · cases h

/-! ## One option -/

/-- An option as it stands in a message. -/
structure RawOption where
  /-- The byte with the two nibbles. -/
  header : UInt8
  /-- The difference to the number of the option before. -/
  delta : ℕ
  /-- The value. -/
  value : List UInt8
deriving DecidableEq

/-- An option as a delta and a value. -/
def RawOption.gap (o : RawOption) : ℕ × List UInt8 := (o.delta, o.value)

/-- The ways an option can be malformed. -/
inductive Malformed where
  /-- The nibble of the delta is 15. -/
  | reservedDelta
  /-- The extension of the delta is cut off. -/
  | shortDelta (missing : ℕ)
  /-- The nibble of the length is 15. -/
  | reservedLength
  /-- The extension of the length is cut off. -/
  | shortLength (missing : ℕ)
  /-- The value is cut off. -/
  | shortValue
deriving DecidableEq

/-- The ways the options of a message can end. -/
inductive Ending where
  /-- The message ends with its last option. -/
  | finished
  /-- The payload marker, with what is behind it. -/
  | marker (payload : List UInt8)
  /-- An option that is not one. -/
  | malformed (why : Malformed)
deriving DecidableEq

/-- The payload marker. -/
def marker : UInt8 := 0xFF

/-- Take one option off the front. -/
def peelOption (two : UInt8 → UInt8 → ℕ) : List UInt8 → Peel UInt8 RawOption Ending
  | [] => .stop .finished
  | h :: t =>
    if h = marker then .stop (.marker t)
    else
      match takeField two (h.toNat / 16) t with
      | .reserved => .stop (.malformed .reservedDelta)
      | .short k => .stop (.malformed (.shortDelta k))
      | .value delta t =>
        match takeField two (h.toNat % 16) t with
        | .reserved => .stop (.malformed .reservedLength)
        | .short k => .stop (.malformed (.shortLength k))
        | .value len t =>
          if t.length < len then .stop (.malformed .shortValue)
          else .item ⟨h, delta, t.take len⟩ (t.drop len)

theorem peelOption_eq_finished {two : UInt8 → UInt8 → ℕ} {l : List UInt8} :
    peelOption two l = .stop .finished ↔ l = [] := by
  constructor
  · intro h
    cases l with
    | nil => rfl
    | cons b t =>
      rw [peelOption] at h
      repeat' split at h
      all_goals cases h
  · rintro rfl
    rfl

theorem peelOption_eq_marker {two : UInt8 → UInt8 → ℕ} {l payload : List UInt8} :
    peelOption two l = .stop (.marker payload) ↔ l = marker :: payload := by
  constructor
  · intro h
    cases l with
    | nil => cases h
    | cons b t =>
      rw [peelOption] at h
      split at h
      · rename_i hb
        cases h
        rw [hb]
      · repeat' split at h
        all_goals cases h
  · rintro rfl
    simp [peelOption]

/-- **What an option is made of**, for any reading of the two-byte extensions. -/
theorem peelOption_eq_item {two : UInt8 → UInt8 → ℕ} {l rest : List UInt8} {o : RawOption}
    (h : peelOption two l = .item o rest) :
    ∃ t t' : List UInt8, l = o.header :: t ∧ o.header ≠ marker ∧
      takeField two (o.header.toNat / 16) t = .value o.delta t' ∧
      takeField two (o.header.toNat % 16) t' = .value o.value.length (o.value ++ rest) := by
  cases l with
  | nil => cases h
  | cons b t =>
    rw [peelOption] at h
    split at h
    · cases h
    · rename_i hb
      split at h
      · cases h
      · cases h
      · rename_i delta t' hdelta
        split at h
        · cases h
        · cases h
        · rename_i len t'' hlen
          split at h
          · cases h
          · rename_i hle
            cases h
            refine ⟨t, t', rfl, hb, hdelta, ?_⟩
            rw [List.take_append_drop, List.length_take, Nat.min_eq_left (by omega), hlen]

theorem suffix_of_peelOption {two : UInt8 → UInt8 → ℕ} {l rest : List UInt8} {o : RawOption}
    (h : peelOption two l = .item o rest) : rest <:+ l ∧ rest.length < l.length := by
  obtain ⟨t, t', rfl, -, hdelta, hlen⟩ := peelOption_eq_item h
  obtain ⟨e, rfl⟩ := suffix_of_takeField hdelta
  obtain ⟨e', rfl⟩ := suffix_of_takeField hlen
  refine ⟨⟨o.header :: (e ++ e' ++ o.value), by simp⟩, ?_⟩
  simp only [List.length_cons, List.length_append]
  omega

/-- **What is wrong with an option that is malformed.** -/
theorem peelOption_eq_malformed {two : UInt8 → UInt8 → ℕ} {l : List UInt8} {why : Malformed}
    (h : peelOption two l = .stop (.malformed why)) :
    ∃ (b : UInt8) (t : List UInt8), l = b :: t ∧ b ≠ marker ∧
      (takeField two (b.toNat / 16) t = .reserved ∧ why = .reservedDelta ∨
        (∃ k, takeField two (b.toNat / 16) t = .short k ∧ why = .shortDelta k) ∨
        ∃ d t', takeField two (b.toNat / 16) t = .value d t' ∧
          (takeField two (b.toNat % 16) t' = .reserved ∧ why = .reservedLength ∨
            (∃ k, takeField two (b.toNat % 16) t' = .short k ∧ why = .shortLength k) ∨
            ∃ n t'', takeField two (b.toNat % 16) t' = .value n t'' ∧ t''.length < n ∧
              why = .shortValue)) := by
  cases l with
  | nil => cases h
  | cons b t =>
    rw [peelOption] at h
    split at h
    · cases h
    · rename_i hb
      refine ⟨b, t, rfl, hb, ?_⟩
      split at h
      · rename_i hdelta; cases h; exact .inl ⟨hdelta, rfl⟩
      · rename_i k hdelta; cases h; exact .inr (.inl ⟨k, hdelta, rfl⟩)
      · rename_i d t' hdelta
        refine .inr (.inr ⟨d, t', hdelta, ?_⟩)
        split at h
        · rename_i hlen; cases h; exact .inl ⟨hlen, rfl⟩
        · rename_i k hlen; cases h; exact .inr (.inl ⟨k, hlen, rfl⟩)
        · rename_i n t'' hlen
          split at h
          · rename_i hlt; cases h; exact .inr (.inr ⟨n, t'', hlen, hlt, rfl⟩)
          · cases h

/-- The options of a message, with the reading of a two-byte extension left open. -/
def optionPeeler (two : UInt8 → UInt8 → ℕ) : Peeler UInt8 RawOption Ending where
  peel := peelOption two
  shrinks h := (suffix_of_peelOption h).2

theorem optionPeeler_peel (two : UInt8 → UInt8 → ℕ) (l : List UInt8) :
    (optionPeeler two).peel l = peelOption two l := rfl

/-- The payload of a message is a tail of it, with the marker before it. -/
theorem suffix_of_all_eq_marker {two : UInt8 → UInt8 → ℕ} {l payload : List UInt8}
    (h : ((optionPeeler two).all l).2 = .marker payload) : marker :: payload <:+ l := by
  obtain ⟨tail, htail, hstop⟩ := Peeler.exists_tail (P := optionPeeler two)
    (fun hp ↦ (suffix_of_peelOption hp).1) l
  rw [h] at hstop
  exact peelOption_eq_marker.mp hstop ▸ htail

/-! ## Two readings of one message -/

/-- The two-byte extension of a field, if it has one. -/
def wide (nib : ℕ) (l : List UInt8) : List (UInt8 × UInt8) :=
  if nib = 14 then
    match l with
    | a :: b :: _ => [(a, b)]
    | _ => []
  else []

/-- The number of bytes in the extension of a field. -/
def extensionLength (nib : ℕ) : ℕ := if nib = 13 then 1 else if nib = 14 then 2 else 0

/-- The two-byte extensions of the option at the front. -/
def wideFields : List UInt8 → List (UInt8 × UInt8)
  | [] => []
  | h :: t =>
    wide (h.toNat / 16) t ++ wide (h.toNat % 16) (t.drop (extensionLength (h.toNat / 16)))

/-- The two-byte extensions a walk meets. -/
def met (two : UInt8 → UInt8 → ℕ) (l : List UInt8) : List (UInt8 × UInt8) :=
  ((optionPeeler two).positions l).flatMap wideFields

theorem takeField_congr {two two' : UInt8 → UInt8 → ℕ} {nib : ℕ} {l : List UInt8}
    (h : ∀ w ∈ wide nib l, two' w.1 w.2 = two w.1 w.2) :
    takeField two' nib l = takeField two nib l := by
  by_cases h14 : nib = 14
  · subst h14
    match l, h with
    | [], _ => rfl
    | [_], _ => rfl
    | a :: b :: l, h =>
      have hab : two' a b = two a b := h (a, b) (by simp [wide])
      simp [takeField, hab]
  · simp [takeField, h14]

theorem eq_drop_of_takeField {two : UInt8 → UInt8 → ℕ} {nib n : ℕ} {l rest : List UInt8}
    (h : takeField two nib l = .value n rest) : rest = l.drop (extensionLength nib) := by
  rw [takeField.eq_def] at h
  split at h
  · cases h
    rw [extensionLength, if_neg (by omega), if_neg (by omega), List.drop_zero]
  · split at h
    · rename_i h13
      split at h
      · cases h
      · cases h; rw [extensionLength, if_pos h13]; rfl
    · split at h
      · rename_i h14
        split at h
        · cases h
        · cases h
        · cases h; rw [extensionLength, if_neg (by omega), if_pos h14]; rfl
      · cases h

/-- A two-byte extension is what its field was read from. -/
theorem eq_of_mem_wide {two : UInt8 → UInt8 → ℕ} {nib n : ℕ} {l rest : List UInt8}
    (h : takeField two nib l = .value n rest) {w : UInt8 × UInt8} (hw : w ∈ wide nib l) :
    two w.1 w.2 = n := by
  by_cases h14 : nib = 14
  · subst h14
    match l, h, hw with
    | a :: b :: l, h, hw =>
      simp only [wide, if_true, List.mem_singleton] at hw
      subst hw
      simp only [takeField, Nat.reduceLT, if_false, if_true, Nat.reduceEqDiff] at h
      cases h
      rfl
  · simp [wide, h14] at hw

/-- Readings that agree on the extensions of an option take off the same option. -/
theorem peelOption_congr {two two' : UInt8 → UInt8 → ℕ} {l : List UInt8}
    (h : ∀ w ∈ wideFields l, two' w.1 w.2 = two w.1 w.2) :
    peelOption two' l = peelOption two l := by
  cases l with
  | nil => rfl
  | cons b t =>
    simp only [wideFields, List.mem_append] at h
    rw [peelOption, peelOption, takeField_congr fun w hw ↦ h w (.inl hw)]
    split
    · rfl
    · split
      · rfl
      · rfl
      · rename_i d t' hdelta
        rw [takeField_congr fun w hw ↦ h w (.inr (eq_drop_of_takeField hdelta ▸ hw))]

/-- **Readings that agree on the extensions a walk meets take the same walk.** -/
theorem all_congr {two two' : UInt8 → UInt8 → ℕ} {l : List UInt8}
    (h : ∀ w ∈ met two l, two' w.1 w.2 = two w.1 w.2) :
    (optionPeeler two').all l = (optionPeeler two).all l ∧ met two' l = met two l := by
  obtain ⟨hall, hpos⟩ := Peeler.all_congr (P := optionPeeler two) (Q := optionPeeler two') (l := l)
    fun m hm ↦ peelOption_congr fun w hw ↦ h w (List.mem_flatMap.mpr ⟨m, hm, hw⟩)
  exact ⟨hall, by rw [met, hpos, met]⟩

theorem met_item {two : UInt8 → UInt8 → ℕ} {l rest : List UInt8} {o : RawOption}
    (h : peelOption two l = .item o rest) : met two l = wideFields l ++ met two rest := by
  rw [met, Peeler.positions_item (P := optionPeeler two) h, List.flatMap_cons, met]

theorem met_marker (two : UInt8 → UInt8 → ℕ) (payload : List UInt8) :
    met two (marker :: payload) = [] := by
  have h : (optionPeeler two).peel (marker :: payload) = .stop (.marker payload) := by
    rw [optionPeeler_peel, peelOption_eq_marker]
  rw [met, Peeler.positions_stop h]
  simp [wideFields, wide, marker]

/-- Readings that take off the same delta and value agree on the extensions of the option, and
leave the same bytes. -/
theorem agree_of_peelOption {two two' : UInt8 → UInt8 → ℕ} {l rest rest' : List UInt8}
    {o o' : RawOption} (h : peelOption two l = .item o rest)
    (h' : peelOption two' l = .item o' rest') (hgap : o'.gap = o.gap) :
    (∀ w ∈ wideFields l, two' w.1 w.2 = two w.1 w.2) ∧ rest' = rest := by
  obtain ⟨t, t₁, rfl, -, hdelta, hlen⟩ := peelOption_eq_item h
  obtain ⟨t', t₁', hl', -, hdelta', hlen'⟩ := peelOption_eq_item h'
  obtain ⟨hheader, rfl⟩ := List.cons.inj hl'
  rw [← hheader] at hdelta' hlen'
  obtain ⟨hd, hv⟩ := Prod.mk.inj hgap
  obtain rfl := eq_drop_of_takeField hdelta
  obtain rfl := eq_drop_of_takeField hdelta'
  constructor
  · intro w hw
    rcases List.mem_append.mp hw with hw | hw
    · rw [eq_of_mem_wide hdelta hw, eq_of_mem_wide hdelta' hw, hd]
    · rw [eq_of_mem_wide hlen hw, eq_of_mem_wide hlen' hw, hv]
  · have hrest := (eq_drop_of_takeField hlen').trans (eq_drop_of_takeField hlen).symm
    rw [hv] at hrest
    exact List.append_cancel_left hrest

/-- **Walks that agree on deltas and values agree on the extensions they meet**, if one of them
reaches a payload. -/
theorem agree_of_all {two two' : UInt8 → UInt8 → ℕ} {l payload : List UInt8}
    (hend : ((optionPeeler two).all l).2 = .marker payload)
    (hgap : ((optionPeeler two').all l).1.map RawOption.gap =
      ((optionPeeler two).all l).1.map RawOption.gap) :
    ∀ w ∈ met two l, two' w.1 w.2 = two w.1 w.2 := by
  induction l using (optionPeeler two).induct with
  | stop l e hp =>
    rw [Peeler.all_stop hp] at hend
    obtain rfl : e = .marker payload := hend
    rw [optionPeeler_peel, peelOption_eq_marker] at hp
    rw [hp, met_marker]
    simp
  | item l o rest hp ih =>
    cases hp' : (optionPeeler two').peel l with
    | stop e =>
      rw [Peeler.all_item hp, Peeler.all_stop hp'] at hgap
      cases hgap
    | item o' rest' =>
      rw [Peeler.all_item hp, Peeler.all_item hp', List.map_cons, List.map_cons,
        List.cons.injEq] at hgap
      obtain ⟨hfields, hrest⟩ := agree_of_peelOption hp hp' hgap.1
      subst hrest
      rw [Peeler.all_item hp] at hend
      rw [met_item hp]
      intro w hw
      rcases List.mem_append.mp hw with hw | hw
      · exact hfields w hw
      · exact ih hend hgap.2 w hw

/-- Write an option, given as its delta and its value. -/
def encodeOption (o : ℕ × List UInt8) : List UInt8 :=
  UInt8.ofNat (16 * nibble o.1 + nibble o.2.length) ::
    (extension o.1 ++ extension o.2.length ++ o.2)

theorem toNat_header (d n : ℕ) :
    (UInt8.ofNat (16 * nibble d + nibble n)).toNat = 16 * nibble d + nibble n := by
  have := nibble_lt d
  have := nibble_lt n
  rw [UInt8.toNat_ofNat']
  omega

theorem header_ne_marker (d n : ℕ) : UInt8.ofNat (16 * nibble d + nibble n) ≠ marker := by
  intro h
  have h255 := congrArg UInt8.toNat h
  have := nibble_lt d
  have := nibble_lt n
  rw [toNat_header, marker] at h255
  simp at h255
  omega

/-- An option whose two fields read back is taken off as it was written. -/
theorem peelOption_encodeOption_of {two : UInt8 → UInt8 → ℕ} {d : ℕ} {v : List UInt8}
    (hd : ∀ l, takeField two (nibble d) (extension d ++ l) = .value d l)
    (hv : ∀ l, takeField two (nibble v.length) (extension v.length ++ l) = .value v.length l)
    (rest : List UInt8) :
    peelOption two (encodeOption (d, v) ++ rest) =
      .item ⟨UInt8.ofNat (16 * nibble d + nibble v.length), d, v⟩ rest := by
  have hlt := nibble_lt v.length
  rw [encodeOption, List.cons_append, peelOption, if_neg (header_ne_marker _ _), toNat_header,
    show (16 * nibble d + nibble v.length) / 16 = nibble d by omega,
    show (16 * nibble d + nibble v.length) % 16 = nibble v.length by omega]
  simp [List.append_assoc, hd, hv]

/-- **An option reads back from the front of whatever is behind it.** -/
theorem peelOption_encodeOption {d : ℕ} {v : List UInt8} (hd : d ≤ maxField)
    (hv : v.length ≤ maxField) (rest : List UInt8) :
    peelOption networkOrder (encodeOption (d, v) ++ rest) =
      .item ⟨UInt8.ofNat (16 * nibble d + nibble v.length), d, v⟩ rest :=
  peelOption_encodeOption_of (takeField_extension hd) (takeField_extension hv) rest

/-- What was taken off as an option was written as one. -/
theorem eq_encodeOption {l rest : List UInt8} {o : RawOption}
    (h : peelOption networkOrder l = .item o rest) :
    l = encodeOption (o.delta, o.value) ++ rest ∧ o.delta ≤ maxField ∧
      o.value.length ≤ maxField := by
  obtain ⟨t, t', rfl, -, hdelta, hlen⟩ := peelOption_eq_item h
  obtain ⟨hdnib, rfl, hdmax⟩ := eq_of_takeField hdelta
  obtain ⟨hlnib, rfl, hlmax⟩ := eq_of_takeField hlen
  refine ⟨?_, hdmax, hlmax⟩
  have hb : o.header = UInt8.ofNat (16 * nibble o.delta + nibble o.value.length) := by
    rw [← UInt8.toNat_inj, toNat_header, ← hdnib, ← hlnib]
    omega
  rw [encodeOption, ← hb]
  simp [List.append_assoc]

/-! ## The options of a message -/

/-- What the options of a message say: the raw options, and the payload behind them.  A marker with
nothing behind it is not a payload. -/
def decodeOptions (l : List UInt8) : Option (List RawOption × List UInt8) :=
  match (optionPeeler networkOrder).all l with
  | (raws, .finished) => some (raws, [])
  | (raws, .marker payload) => if payload = [] then none else some (raws, payload)
  | (_, .malformed _) => none

/-- The marker and the payload, if there is one. -/
def encodePayload (payload : List UInt8) : List UInt8 :=
  if payload = [] then [] else marker :: payload

/-- The raw option an option is written as. -/
def rawOf (g : ℕ × List UInt8) : RawOption :=
  ⟨UInt8.ofNat (16 * nibble g.1 + nibble g.2.length), g.1, g.2⟩

/-- The two fields of an option are in range. -/
def FieldsFit (g : ℕ × List UInt8) : Prop := g.1 ≤ maxField ∧ g.2.length ≤ maxField

instance (g : ℕ × List UInt8) : Decidable (FieldsFit g) := inferInstanceAs (Decidable (_ ∧ _))

theorem map_gap_rawOf (gs : List (ℕ × List UInt8)) : (gs.map rawOf).map RawOption.gap = gs := by
  rw [List.map_map]
  exact List.map_id _

/-- A walk over written options takes exactly these options, for every reading of the two-byte
extensions that their fields do not notice. -/
theorem all_encodeOption {two : UInt8 → UInt8 → ℕ} {gs : List (ℕ × List UInt8)}
    (h : ∀ g ∈ gs, ∀ rest, peelOption two (encodeOption g ++ rest) = .item (rawOf g) rest)
    (tail : List UInt8) :
    (optionPeeler two).all (gs.flatMap encodeOption ++ tail) =
      (gs.map rawOf ++ ((optionPeeler two).all tail).1, ((optionPeeler two).all tail).2) := by
  have hwritten : gs.flatMap encodeOption =
      (gs.map rawOf).flatMap fun o ↦ encodeOption o.gap := by
    rw [List.flatMap_map]; rfl
  rw [hwritten]
  refine Peeler.all_append (fun o ho rest ↦ ?_) tail
  obtain ⟨g, hg, rfl⟩ := List.mem_map.mp ho
  exact h g hg rest

theorem all_encodePayload (two : UInt8 → UInt8 → ℕ) (payload : List UInt8) :
    (optionPeeler two).all (encodePayload payload) =
      ([], if payload = [] then .finished else .marker payload) := by
  rw [encodePayload]
  by_cases hp : payload = []
  · rw [if_pos hp, if_pos hp]; rfl
  · rw [if_neg hp, if_neg hp]
    exact Peeler.all_stop (by rw [optionPeeler_peel, peelOption_eq_marker])

/-- **Options and payload read back.** -/
theorem decodeOptions_encode {gs : List (ℕ × List UInt8)} (h : ∀ g ∈ gs, FieldsFit g)
    (payload : List UInt8) :
    decodeOptions (gs.flatMap encodeOption ++ encodePayload payload) =
      some (gs.map rawOf, payload) := by
  rw [decodeOptions, all_encodeOption fun g hg ↦ peelOption_encodeOption (h g hg).1 (h g hg).2,
    all_encodePayload, List.append_nil]
  by_cases hp : payload = []
  · simp [hp]
  · simp [hp]

theorem all_of_decodeOptions {l payload : List UInt8} {raws : List RawOption}
    (h : decodeOptions l = some (raws, payload)) :
    ((optionPeeler networkOrder).all l).1 = raws := by
  rw [decodeOptions] at h
  rcases hw : (optionPeeler networkOrder).all l with ⟨rs, e⟩
  rw [hw] at h
  cases e with
  | malformed why => cases h
  | finished => cases h; rfl
  | marker pl =>
    simp only [Option.ite_none_left_eq_some, Option.some.injEq, Prod.mk.injEq] at h
    exact h.2.1

/-- A walk that ends at a marker with a payload behind it reads options and payload. -/
theorem decodeOptions_of_all {l payload : List UInt8}
    (h : ((optionPeeler networkOrder).all l).2 = .marker payload) (hne : payload ≠ []) :
    decodeOptions l = some (((optionPeeler networkOrder).all l).1, payload) := by
  rw [decodeOptions]
  rcases hw : (optionPeeler networkOrder).all l with ⟨rs, e⟩
  rw [hw] at h
  obtain rfl : e = .marker payload := h
  simp [hne]

/-- What was read as options and payload was written as options and payload. -/
theorem eq_of_decodeOptions {l payload : List UInt8} {raws : List RawOption}
    (h : decodeOptions l = some (raws, payload)) :
    l = (raws.map RawOption.gap).flatMap encodeOption ++ encodePayload payload ∧
      ∀ o ∈ raws, FieldsFit o.gap := by
  obtain ⟨tail, hl, htail⟩ := Peeler.eq_flatMap_all_append (P := optionPeeler networkOrder)
    (w := fun o ↦ encodeOption o.gap) (fun hp ↦ (eq_encodeOption hp).1) l
  have hfit := Peeler.forall_mem_all (P := optionPeeler networkOrder)
    (Q := fun o ↦ FieldsFit o.gap) (fun hp ↦ (eq_encodeOption hp).2) l
  rw [List.flatMap_map]
  rw [decodeOptions] at h
  rcases hw : (optionPeeler networkOrder).all l with ⟨rs, e⟩
  rw [hw] at h hl htail hfit
  cases e with
  | malformed why => cases h
  | finished =>
    cases h
    rw [peelOption_eq_finished.mp htail] at hl
    exact ⟨by simpa [encodePayload] using hl, hfit⟩
  | marker pl =>
    simp only [Option.ite_none_left_eq_some, Option.some.injEq, Prod.mk.injEq] at h
    obtain ⟨hne, rfl, rfl⟩ := h
    rw [peelOption_eq_marker.mp htail] at hl
    exact ⟨by simpa [encodePayload, hne] using hl, hfit⟩

/-! ## Messages -/

/-- The largest option number. -/
def maxNumber : ℕ := 65535

/-- A message. -/
structure Message where
  /-- The type, two bits. -/
  type : ℕ
  /-- The code. -/
  code : UInt8
  /-- The message id. -/
  messageId : UInt16
  /-- The token. -/
  token : List UInt8
  /-- The options, each a number and a value. -/
  options : List (ℕ × List UInt8)
  /-- The payload; a message without payload has an empty one. -/
  payload : List UInt8
deriving DecidableEq

/-- The messages the format can carry. -/
structure Message.WellFormed (m : Message) : Prop where
  /-- The type fits its two bits. -/
  type_lt : m.type < 4
  /-- The token has at most eight bytes. -/
  token_le : m.token.length ≤ 8
  /-- The options are in ascending order. -/
  ascending : RunningSum.Ascending 0 m.options
  /-- No option number is above 65535. -/
  number_le : ∀ o ∈ m.options, o.1 ≤ maxNumber
  /-- No value is longer than a length field can say. -/
  value_le : ∀ o ∈ m.options, o.2.length ≤ maxField

/-- The first four bytes of a message: version 1, type, length of the token, code, message id. -/
def encodeHeader (m : Message) : List UInt8 :=
  [UInt8.ofNat (64 + 16 * m.type + m.token.length), m.code,
    UInt8.ofNat (m.messageId.toNat / 256), UInt8.ofNat (m.messageId.toNat % 256)]

/-- Write a message. -/
def Message.encode (m : Message) : List UInt8 :=
  encodeHeader m ++ (m.token ++
    ((RunningSum.gaps 0 m.options).flatMap encodeOption ++ encodePayload m.payload))

/-- Read a message: version 1, a token of at most eight bytes, options with numbers up to 65535,
and then the end of the message or a marker and a payload. -/
def decode : List UInt8 → Option Message
  | b :: code :: hi :: lo :: l =>
    if b.toNat / 64 = 1 ∧ b.toNat % 16 ≤ 8 ∧ b.toNat % 16 ≤ l.length then
      match decodeOptions (l.drop (b.toNat % 16)) with
      | none => none
      | some (raws, payload) =>
        let options := RunningSum.sums 0 (raws.map RawOption.gap)
        if ∀ o ∈ options, o.1 ≤ maxNumber then
          some { type := b.toNat / 16 % 4, code,
                 messageId := UInt16.ofNat (hi.toNat * 256 + lo.toNat),
                 token := l.take (b.toNat % 16), options, payload }
        else none
    else none
  | _ => none

/-- The length of the token, as the first byte has it. -/
def tokenLengthOf (l : List UInt8) : ℕ := (l.headD 0).toNat % 16

/-- Header and token are right: four bytes, version 1, and a complete token of at most eight
bytes. -/
structure HeadOk (l : List UInt8) : Prop where
  /-- The four bytes of the header are there. -/
  four_le : 4 ≤ l.length
  /-- The version is 1. -/
  version : (l.headD 0).toNat / 64 = 1
  /-- The token has at most eight bytes. -/
  token_le : tokenLengthOf l ≤ 8
  /-- The token is complete. -/
  token_complete : 4 + tokenLengthOf l ≤ l.length

/-- The bytes behind header and token. -/
def optionsOf (l : List UInt8) : List UInt8 := l.drop (4 + tokenLengthOf l)

theorem headOk_cons {b₀ b₁ b₂ b₃ : UInt8} {l : List UInt8} :
    HeadOk (b₀ :: b₁ :: b₂ :: b₃ :: l) ↔
      b₀.toNat / 64 = 1 ∧ b₀.toNat % 16 ≤ 8 ∧ b₀.toNat % 16 ≤ l.length := by
  constructor
  · rintro ⟨-, hv, h8, hlen⟩
    simp only [tokenLengthOf, List.headD_cons, List.length_cons] at hv h8 hlen
    exact ⟨hv, h8, by omega⟩
  · rintro ⟨hv, h8, hlen⟩
    refine ⟨by simp, hv, h8, ?_⟩
    simp only [tokenLengthOf, List.headD_cons, List.length_cons]
    omega

theorem optionsOf_cons (b₀ b₁ b₂ b₃ : UInt8) (l : List UInt8) :
    optionsOf (b₀ :: b₁ :: b₂ :: b₃ :: l) = l.drop (b₀.toNat % 16) := by
  rw [optionsOf, tokenLengthOf, List.headD_cons, Nat.add_comm]
  rfl

instance (l : List UInt8) : Decidable (HeadOk l) :=
  decidable_of_iff (4 ≤ l.length ∧ (l.headD 0).toNat / 64 = 1 ∧ tokenLengthOf l ≤ 8 ∧
    4 + tokenLengthOf l ≤ l.length)
    ⟨fun ⟨h₁, h₂, h₃, h₄⟩ ↦ ⟨h₁, h₂, h₃, h₄⟩, fun ⟨h₁, h₂, h₃, h₄⟩ ↦ ⟨h₁, h₂, h₃, h₄⟩⟩

theorem exists_cons_of_four_le {l : List UInt8} (h : 4 ≤ l.length) :
    ∃ b₀ b₁ b₂ b₃ t, l = b₀ :: b₁ :: b₂ :: b₃ :: t := by
  match l, h with
  | b₀ :: b₁ :: b₂ :: b₃ :: t, _ => exact ⟨b₀, b₁, b₂, b₃, t, rfl⟩

/-- The gaps of an ascending list are no larger than its keys. -/
theorem gap_le_of_ascending {n k : ℕ} {l : List (ℕ × List UInt8)}
    (h : ∀ o ∈ l, o.1 ≤ k) : ∀ g ∈ RunningSum.gaps n l, g.1 ≤ k := by
  induction l generalizing n with
  | nil => simp [RunningSum.gaps]
  | cons o l ih =>
    obtain ⟨m, v⟩ := o
    intro g hg
    rw [RunningSum.gaps] at hg
    rcases List.mem_cons.mp hg with rfl | hg
    · exact (Nat.sub_le m n).trans (h (m, v) List.mem_cons_self)
    · exact ih (fun o ho ↦ h o (List.mem_cons_of_mem _ ho)) g hg

theorem value_of_mem_gaps {n : ℕ} {l : List (ℕ × List UInt8)} {g : ℕ × List UInt8}
    (hg : g ∈ RunningSum.gaps n l) : ∃ o ∈ l, o.2 = g.2 := by
  induction l generalizing n with
  | nil => simp [RunningSum.gaps] at hg
  | cons o l ih =>
    obtain ⟨m, v⟩ := o
    rw [RunningSum.gaps] at hg
    rcases List.mem_cons.mp hg with rfl | hg
    · exact ⟨(m, v), List.mem_cons_self, rfl⟩
    · obtain ⟨o, ho, hv⟩ := ih hg
      exact ⟨o, List.mem_cons_of_mem _ ho, hv⟩

theorem value_of_mem_sums {n : ℕ} {l : List (ℕ × List UInt8)} {o : ℕ × List UInt8}
    (ho : o ∈ RunningSum.sums n l) : ∃ g ∈ l, g.2 = o.2 := by
  induction l generalizing n with
  | nil => simp [RunningSum.sums] at ho
  | cons g l ih =>
    obtain ⟨d, v⟩ := g
    rw [RunningSum.sums] at ho
    rcases List.mem_cons.mp ho with rfl | ho
    · exact ⟨(d, v), List.mem_cons_self, rfl⟩
    · obtain ⟨g, hg, hv⟩ := ih ho
      exact ⟨g, List.mem_cons_of_mem _ hg, hv⟩

/-- Every option of a well-formed message has fields in range. -/
theorem Message.WellFormed.fieldsFit {m : Message} (h : m.WellFormed) :
    ∀ g ∈ RunningSum.gaps 0 m.options, FieldsFit g := by
  intro g hg
  obtain ⟨o, ho, hv⟩ := value_of_mem_gaps hg
  have hd := gap_le_of_ascending h.number_le g hg
  refine ⟨hd.trans (by decide), ?_⟩
  rw [← hv]
  exact h.value_le o ho

/-- **Reading undoes writing.** -/
theorem decode_encode {m : Message} (h : m.WellFormed) : decode m.encode = some m := by
  have htype := h.type_lt
  have htoken := h.token_le
  have hid := m.messageId.toNat_lt
  have hb : (UInt8.ofNat (64 + 16 * m.type + m.token.length)).toNat =
      64 + 16 * m.type + m.token.length := by rw [UInt8.toNat_ofNat']; omega
  have hmod : (64 + 16 * m.type + m.token.length) % 16 = m.token.length := by omega
  have hdiv : (64 + 16 * m.type + m.token.length) / 16 % 4 = m.type := by omega
  have hver : (64 + 16 * m.type + m.token.length) / 64 = 1 := by omega
  have hmid : UInt16.ofNat ((UInt8.ofNat (m.messageId.toNat / 256)).toNat * 256 +
      (UInt8.ofNat (m.messageId.toNat % 256)).toNat) = m.messageId := by
    rw [← UInt16.toNat_inj, UInt16.toNat_ofNat', UInt8.toNat_ofNat', UInt8.toNat_ofNat']
    omega
  rw [Message.encode, encodeHeader]
  simp only [List.cons_append, List.nil_append, decode, hb, hmod, hdiv, hver, hmid]
  rw [if_pos ⟨trivial, htoken, by simp⟩, List.drop_left' rfl, List.take_left' rfl,
    decodeOptions_encode h.fieldsFit]
  simp only [map_gap_rawOf, RunningSum.sums_gaps h.ascending]
  rw [if_pos h.number_le]

/-- Writing undoes reading, and only well-formed messages are read. -/
theorem encode_decode {l : List UInt8} {m : Message} (h : decode l = some m) :
    m.encode = l ∧ m.WellFormed := by
  unfold decode at h
  split at h
  · rename_i b code hi lo l
    split at h
    · rename_i hcond
      obtain ⟨hver, htok, hlen⟩ := hcond
      split at h
      · cases h
      · rename_i raws payload hopts
        simp only at h
        split at h
        · rename_i hnum
          cases h
          obtain ⟨hl, hfit⟩ := eq_of_decodeOptions hopts
          have hbyte := b.toNat_lt
          have hhi := hi.toNat_lt
          have hlo := lo.toNat_lt
          refine ⟨?_, ?_, ?_, RunningSum.ascending_sums 0 _, hnum, ?_⟩
          · have htake : (l.take (b.toNat % 16)).length = b.toNat % 16 := by
              rw [List.length_take]; omega
            have hb : UInt8.ofNat (64 + 16 * (b.toNat / 16 % 4) + b.toNat % 16) = b := by
              rw [← UInt8.toNat_inj, UInt8.toNat_ofNat']; omega
            have hmid : (UInt16.ofNat (hi.toNat * 256 + lo.toNat)).toNat =
                hi.toNat * 256 + lo.toNat := by rw [UInt16.toNat_ofNat']; omega
            have hhi' : (hi.toNat * 256 + lo.toNat) / 256 = hi.toNat := by omega
            have hlo' : (hi.toNat * 256 + lo.toNat) % 256 = lo.toNat := by omega
            rw [Message.encode, encodeHeader]
            simp only [htake, hb, hmid, hhi', hlo', RunningSum.gaps_sums, ← hl,
              List.take_append_drop, UInt8.ofNat_toNat, List.cons_append, List.nil_append]
          · exact Nat.mod_lt _ (by decide)
          · simp only [List.length_take]; omega
          · intro o ho
            obtain ⟨g, hg, hv⟩ := value_of_mem_sums ho
            obtain ⟨r, hr, rfl⟩ := List.mem_map.mp hg
            rw [← hv]
            exact (hfit r hr).2
        · cases h
    · cases h
  · cases h

/-- **The format is unambiguous**: `decode` reads exactly what `encode` writes. -/
theorem decode_eq_some_iff {l : List UInt8} {m : Message} :
    decode l = some m ↔ m.WellFormed ∧ m.encode = l := by
  constructor
  · exact fun h ↦ (encode_decode h).symm
  · rintro ⟨hm, rfl⟩
    exact decode_encode hm

/-- The bytes are a message. -/
def IsMessage (l : List UInt8) : Prop := ∃ m : Message, m.WellFormed ∧ m.encode = l

theorem isMessage_iff {l : List UInt8} : IsMessage l ↔ (decode l).isSome := by
  rw [IsMessage, Option.isSome_iff_exists]
  exact exists_congr fun m ↦ decode_eq_some_iff.symm

theorem isMessage_iff_parts {l : List UInt8} :
    IsMessage l ↔ HeadOk l ∧ ∃ raws payload, decodeOptions (optionsOf l) = some (raws, payload) ∧
      ∀ o ∈ RunningSum.sums 0 (raws.map RawOption.gap), o.1 ≤ maxNumber := by
  rw [isMessage_iff]
  by_cases h4 : 4 ≤ l.length
  swap
  · refine iff_of_false (fun h ↦ ?_) fun h ↦ h4 h.1.four_le
    match l, h4 with
    | [], _ | [_], _ | [_, _], _ | [_, _, _], _ => simp [decode] at h
    | _ :: _ :: _ :: _ :: t, h4 => simp at h4
  obtain ⟨b₀, b₁, b₂, b₃, t, rfl⟩ := exists_cons_of_four_le h4
  rw [headOk_cons, optionsOf_cons, decode]
  by_cases hhead : b₀.toNat / 64 = 1 ∧ b₀.toNat % 16 ≤ 8 ∧ b₀.toNat % 16 ≤ t.length
  swap
  · simp [hhead]
  rw [if_pos hhead]
  cases hopts : decodeOptions (t.drop (b₀.toNat % 16)) with
  | none => simp
  | some r =>
    obtain ⟨raws, payload⟩ := r
    simp only [hhead, Option.some.injEq, Prod.mk.injEq]
    constructor
    · intro h
      split at h
      · rename_i hnum; exact ⟨⟨trivial, trivial, trivial⟩, raws, payload, ⟨rfl, rfl⟩, hnum⟩
      · cases h
    · rintro ⟨-, _, _, ⟨rfl, rfl⟩, hnum⟩
      rw [if_pos hnum]
      rfl

instance (l : List UInt8) : Decidable (IsMessage l) := decidable_of_iff _ isMessage_iff.symm

end Rfc7252
