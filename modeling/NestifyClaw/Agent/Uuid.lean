import NestifyClaw.Fields

/-!
# Identifiers

`uuidv7` makes an identifier from the clock, random bytes and what the module keeps of its last
call.  As texts the identifiers of one process increase strictly (`uuidv7_lt`), whatever the clock
shows and the random bytes are: a clock that stands still or goes back only makes the sequence
number count.  From that, `generateEntryId` returns an identifier that is not in use
(`generateEntryId_fresh`), although it does not look at the last one it tries.
-/

namespace NestifyClaw.Agent

/-- `lastTimestamp` and `sequence` after a call. -/
structure Stamp where
  timestamp : Nat
  sequence : Nat

/-- What a call finds: the clock and the random bytes. -/
structure Draw where
  now : Nat
  random : Fin 16 → Fin 256

/-- `none` stands for the state before the first call, where `lastTimestamp` is `-Infinity`. -/
def nextStamp (last : Option Stamp) (draw : Draw) : Stamp :=
  let drawn : Stamp :=
    { timestamp := draw.now
      sequence := draw.random 6 * 0x1000000 + draw.random 7 * 0x10000 + draw.random 8 * 0x100 +
        draw.random 9 }
  match last with
  | none => drawn
  | some last =>
      if draw.now > last.timestamp then drawn
      else
        let sequence := (last.sequence + 1) % 0x100000000
        { timestamp := if sequence = 0 then last.timestamp + 1 else last.timestamp, sequence }

def uuidBytes (stamp : Stamp) (random : Fin 16 → Fin 256) : List Nat :=
  [stamp.timestamp / 0x10000000000 &&& 0xff,
    stamp.timestamp / 0x100000000 &&& 0xff,
    stamp.timestamp / 0x1000000 &&& 0xff,
    stamp.timestamp / 0x10000 &&& 0xff,
    stamp.timestamp / 0x100 &&& 0xff,
    stamp.timestamp &&& 0xff,
    0x70 ||| (stamp.sequence >>> 28 &&& 0x0f),
    stamp.sequence >>> 20 &&& 0xff,
    0x80 ||| (stamp.sequence >>> 14 &&& 0x3f),
    stamp.sequence >>> 6 &&& 0xff,
    (stamp.sequence &&& 0x3f) <<< 2 ||| (random 10 &&& 0x03),
    random 11, random 12, random 13, random 14, random 15]

/-- `byte.toString(16).padStart(2, "0")` -/
def hexByte (byte : Nat) : List Char := [Nat.digitChar (byte / 16), Nat.digitChar (byte % 16)]

def formatUuid (bytes : List Nat) : String :=
  let hex := bytes.map hexByte
  let slice := fun start stop => ((hex.take stop).drop start).flatten
  String.ofList (slice 0 4 ++ ['-'] ++ slice 4 6 ++ ['-'] ++ slice 6 8 ++ ['-'] ++ slice 8 10 ++
    ['-'] ++ slice 10 16)

/-- The stamp of each call of a process, the first one numbered zero. -/
def stampAt (draws : Nat → Draw) : Nat → Stamp
  | 0 => nextStamp none (draws 0)
  | n + 1 => nextStamp (some (stampAt draws n)) (draws (n + 1))

def bytesAt (draws : Nat → Draw) (n : Nat) : List Nat :=
  uuidBytes (stampAt draws n) (draws n).random

/-- What each call of `uuidv7` returns. -/
def uuidv7 (draws : Nat → Draw) (n : Nat) : String := formatUuid (bytesAt draws n)

/-- The tries that are left, each with the first eight characters of a new identifier; then a whole
one, which is not looked up. -/
def tryEntryIds (draws : Nat → Draw) (has : String → Bool) : Nat → Nat → String × Nat
  | 0, calls => (uuidv7 draws calls, calls + 1)
  | tries + 1, calls =>
      let id := String.ofList ((uuidv7 draws calls).toList.take 8)
      if !has id then (id, calls + 1) else tryEntryIds draws has tries (calls + 1)

/-- The identifier, and the number of calls of `uuidv7` that the process has made then. -/
def generateEntryId (draws : Nat → Draw) (has : String → Bool) (calls : Nat) : String × Nat :=
  tryEntryIds draws has 100 calls

/-! ## Order -/

theorem and_0xff (n : Nat) : n &&& 0xff = n % 256 := Nat.and_two_pow_sub_one_eq_mod n 8

theorem and_0x3f (n : Nat) : n &&& 0x3f = n % 64 := Nat.and_two_pow_sub_one_eq_mod n 6

theorem and_0x0f (n : Nat) : n &&& 0x0f = n % 16 := Nat.and_two_pow_sub_one_eq_mod n 4

theorem and_0x03 (n : Nat) : n &&& 0x03 = n % 4 := Nat.and_two_pow_sub_one_eq_mod n 2

theorem or_version : ∀ n < 16, 0x70 ||| n = 0x70 + n := by decide

theorem or_variant : ∀ n < 64, 0x80 ||| n = 0x80 + n := by decide

theorem or_random : ∀ n < 64, ∀ r < 4, n <<< 2 ||| r = n * 4 + r := by decide

/-- The bytes without bit operations. -/
theorem uuidBytes_eq (stamp : Stamp) (random : Fin 16 → Fin 256) : uuidBytes stamp random =
    [stamp.timestamp / 0x10000000000 % 256, stamp.timestamp / 0x100000000 % 256,
      stamp.timestamp / 0x1000000 % 256, stamp.timestamp / 0x10000 % 256,
      stamp.timestamp / 0x100 % 256, stamp.timestamp % 256,
      0x70 + stamp.sequence / 0x10000000 % 16, stamp.sequence / 0x100000 % 256,
      0x80 + stamp.sequence / 0x4000 % 64, stamp.sequence / 0x40 % 256,
      stamp.sequence % 64 * 4 + random 10 % 4,
      random 11, random 12, random 13, random 14, random 15] := by
  unfold uuidBytes
  simp only [and_0xff, and_0x3f, and_0x0f, and_0x03, Nat.shiftRight_eq_div_pow]
  rw [or_version _ (Nat.mod_lt _ (by decide)), or_variant _ (Nat.mod_lt _ (by decide)),
    or_random _ (Nat.mod_lt _ (by decide)) _ (Nat.mod_lt _ (by decide))]

theorem sequence_nextStamp (last : Option Stamp) (draw : Draw) :
    (nextStamp last draw).sequence < 0x100000000 := by
  have byte := fun i => (draw.random i).isLt
  have drawn : (draw.random 6 * 0x1000000 + draw.random 7 * 0x10000 + draw.random 8 * 0x100 +
      draw.random 9 : Nat) < 0x100000000 := by
    have := byte 6
    have := byte 7
    have := byte 8
    have := byte 9
    omega
  cases last with
  | none => exact drawn
  | some last =>
      rw [nextStamp]
      split
      · exact drawn
      · exact Nat.mod_lt _ (by decide)

theorem sequence_stampAt (draws : Nat → Draw) (n : Nat) :
    (stampAt draws n).sequence < 0x100000000 := by
  cases n <;> exact sequence_nextStamp _ _

/-- The order of stamps: by the timestamp, then by the sequence number. -/
def Stamp.Before (stamp stamp' : Stamp) : Prop :=
  stamp.timestamp < stamp'.timestamp ∨
    stamp.timestamp = stamp'.timestamp ∧ stamp.sequence < stamp'.sequence

theorem Stamp.Before.trans {a b c : Stamp} (first : a.Before b) (second : b.Before c) :
    a.Before c := by
  unfold Stamp.Before at *
  omega

/-- A call's stamp is behind that of the call before it. -/
theorem before_nextStamp {last : Stamp} (bounded : last.sequence < 0x100000000) (draw : Draw) :
    last.Before (nextStamp (some last) draw) := by
  unfold Stamp.Before
  simp only [nextStamp]
  split
  next later => exact Or.inl later
  next notLater =>
      split
      next wraps => exact Or.inl (Nat.lt_succ_self _)
      next counts =>
          have noWrap : last.sequence + 1 ≠ 0x100000000 := fun wraps => counts (by rw [wraps])
          have inside : (last.sequence + 1) % 0x100000000 = last.sequence + 1 :=
            Nat.mod_eq_of_lt (by omega)
          exact Or.inr ⟨rfl, by rw [inside]; exact Nat.lt_succ_self _⟩

theorem before_stampAt (draws : Nat → Draw) {m n : Nat} (earlier : m < n) :
    (stampAt draws m).Before (stampAt draws n) := by
  induction n with
  | zero => cases earlier
  | succ n ih =>
      have step := before_nextStamp (sequence_stampAt draws n) (draws (n + 1))
      rcases Nat.lt_succ_iff_lt_or_eq.mp earlier with before | rfl
      · exact (ih before).trans step
      · exact step

/-- The bytes by their fields: only the lowest field of the sequence shares a byte with random
bits. -/
theorem uuidBytes_fields (stamp : Stamp) (random : Fin 16 → Fin 256) : uuidBytes stamp random =
    fields [8, 8, 8, 8, 8, 8] stamp.timestamp ++
      List.zipWith (fun field mark => mark field) (fields [4, 8, 6, 8, 6] stamp.sequence)
        [(0x70 + ·), id, (0x80 + ·), id, (· * 4 + random 10 % 4)] ++
      [random 11, random 12, random 13, random 14, random 15].map Fin.val := by
  rw [uuidBytes_eq]
  simp [fields]

/-- The marks and the random bits leave the order of the sequence's fields alone. -/
theorem marks_lt {a b c d e r a' b' c' d' e' r' : Nat} (random : r < 4) (random' : r' < 4)
    (less : [a, b, c, d, e] < [a', b', c', d', e']) :
    [0x70 + a, b, 0x80 + c, d, e * 4 + r] < [0x70 + a', b', 0x80 + c', d', e' * 4 + r'] := by
  simp only [List.cons_lt_cons_iff, List.not_lt_nil, and_false, or_false] at less ⊢
  omega

theorem uuidBytes_lt {stamp stamp' : Stamp} {random random' : Fin 16 → Fin 256}
    (before : stamp.Before stamp') (bounded' : stamp'.sequence < 0x100000000)
    (fits : stamp'.timestamp < 0x1000000000000) :
    uuidBytes stamp random < uuidBytes stamp' random' := by
  rw [uuidBytes_fields, uuidBytes_fields]
  rcases before with earlier | ⟨same, less⟩
  · have order := fields_lt [8, 8, 8, 8, 8, 8] earlier fits
    rw [List.append_assoc, List.append_assoc]
    exact append_lt_append order rfl _ _
  · rw [same, List.append_assoc, List.append_assoc]
    have order := fields_lt [4, 8, 6, 8, 6] less bounded'
    have marked := marks_lt (Nat.mod_lt (random 10) (by decide))
      (Nat.mod_lt (random' 10) (by decide)) order
    exact List.append_left_lt (append_lt_append marked rfl _ _)

theorem length_bytesAt (draws : Nat → Draw) (n : Nat) : (bytesAt draws n).length = 16 := rfl

theorem lt_of_mem_uuidBytes {stamp : Stamp} {random : Fin 16 → Fin 256} :
    ∀ byte ∈ uuidBytes stamp random, byte < 256 := by
  rw [uuidBytes_eq]
  simp only [List.forall_mem_cons, List.not_mem_nil, false_imp_iff, implies_true]
  have byte := fun i => (random i).isLt
  refine ⟨?_, ?_, ?_, ?_, ?_, ?_, ?_, ?_, ?_, ?_, ?_, byte 11, byte 12, byte 13, byte 14, byte 15,
    trivial⟩ <;> omega

/-! ## Texts -/

theorem digitChar_lt : ∀ n < 16, ∀ m < n, Nat.digitChar m < Nat.digitChar n := by decide

theorem hexByte_lt {byte byte' : Nat} (isByte : byte' < 256) (less : byte < byte') :
    hexByte byte < hexByte byte' := by
  have split := Nat.div_add_mod byte 16
  have split' := Nat.div_add_mod byte' 16
  rw [hexByte, hexByte, List.cons_lt_cons_iff, List.cons_lt_cons_iff]
  rcases Nat.lt_or_eq_of_le (Nat.div_le_div_right (c := 16) (Nat.le_of_lt less)) with high | same
  · exact Or.inl (digitChar_lt _ (Nat.div_lt_of_lt_mul isByte) _ high)
  · refine Or.inr ⟨by rw [same], Or.inl (digitChar_lt _ (Nat.mod_lt _ (by decide)) _ ?_)⟩
    omega

/-- The dashes behind the bytes. -/
def dashes : List (List Char) :=
  [[], [], [], ['-'], [], ['-'], [], ['-'], [], ['-'], [], [], [], [], [], []]

theorem formatUuid_toList {bytes : List Nat} (long : bytes.length = 16) :
    (formatUuid bytes).toList =
      (List.zipWith (fun byte dash => hexByte byte ++ dash) bytes dashes).flatten := by
  match bytes, long with
  | [_, _, _, _, _, _, _, _, _, _, _, _, _, _, _, _], _ => simp [formatUuid, dashes]

/-- What a process makes later sorts behind what it has made. -/
theorem uuidv7_lt (draws : Nat → Draw) {m n : Nat} (earlier : m < n)
    (fits : (stampAt draws n).timestamp < 0x1000000000000) : uuidv7 draws m < uuidv7 draws n := by
  have order := @uuidBytes_lt _ _ (draws m).random (draws n).random (before_stampAt draws earlier)
    (sequence_stampAt draws n) fits
  rw [String.lt_iff, uuidv7, uuidv7, formatUuid_toList (length_bytesAt draws m),
    formatUuid_toList (length_bytesAt draws n)]
  exact flatten_zipWith_lt order rfl (Nat.le_refl _) (fun _ _ => rfl)
    fun _ _ byte' there => hexByte_lt (lt_of_mem_uuidBytes byte' there)

/-! ## Freshness -/

theorem length_hexByte (byte : Nat) : (hexByte byte).length = 2 := rfl

theorem length_uuidv7 (draws : Nat → Draw) (n : Nat) : (uuidv7 draws n).toList.length = 36 := by
  rw [uuidv7, formatUuid_toList (length_bytesAt draws n)]
  simp [bytesAt, uuidBytes, dashes, length_hexByte]

theorem uuidv7_ne_empty (draws : Nat → Draw) (n : Nat) : uuidv7 draws n ≠ "" := by
  intro same
  have long := length_uuidv7 draws n
  rw [same] at long
  cases long

theorem tryEntryIds_ne_empty (draws : Nat → Draw) (has : String → Bool) (tries calls : Nat) :
    (tryEntryIds draws has tries calls).1 ≠ "" := by
  induction tries generalizing calls with
  | zero => exact uuidv7_ne_empty draws calls
  | succ tries ih =>
      rw [tryEntryIds]
      split
      · intro same
        have long := congrArg (fun id => id.toList.length) same
        simp [length_uuidv7] at long
      · exact ih _

theorem le_tryEntryIds (draws : Nat → Draw) (has : String → Bool) (tries calls : Nat) :
    calls ≤ (tryEntryIds draws has tries calls).2 := by
  induction tries generalizing calls with
  | zero => exact Nat.le_succ calls
  | succ tries ih =>
      rw [tryEntryIds]
      split
      · exact Nat.le_succ calls
      · have later := ih (calls + 1)
        omega

/-- The identifiers that the process makes from now on, up to a number of calls, are other ones. -/
def Past (draws : Nat → Draw) (limit calls : Nat) (id : String) : Prop :=
  ∀ n, calls ≤ n → n < limit → uuidv7 draws n ≠ id

section Fresh

variable {draws : Nat → Draw} {limit calls calls' : Nat} {id : String}

theorem Past.mono (past : Past draws limit calls id) (later : calls ≤ calls') :
    Past draws limit calls' id :=
  fun n from' => past n (Nat.le_trans later from')

theorem past_short (draws : Nat → Draw) (limit calls : Nat) (id : String) :
    Past draws limit calls (String.ofList (id.toList.take 8)) := by
  intro n _ _ same
  have long := length_uuidv7 draws n
  rw [same, String.toList_ofList, List.length_take] at long
  omega

/-- The timestamps of so many calls fit into their 48 bits. -/
def Fits (draws : Nat → Draw) (limit : Nat) : Prop :=
  ∀ n < limit, (stampAt draws n).timestamp < 0x1000000000000

theorem past_uuidv7 (fits : Fits draws limit) (n : Nat) :
    Past draws limit (n + 1) (uuidv7 draws n) :=
  fun later from' before same => String.lt_irrefl _ (same ▸ uuidv7_lt draws from' (fits later before))

theorem tryEntryIds_fresh (fits : Fits draws limit) (has : String → Bool) (tries : Nat)
    (room : calls + tries < limit) (past : ∀ id, has id → Past draws limit calls id) :
    has (tryEntryIds draws has tries calls).1 = false ∧
      calls < (tryEntryIds draws has tries calls).2 ∧
      (tryEntryIds draws has tries calls).2 ≤ calls + tries + 1 ∧
      Past draws limit (tryEntryIds draws has tries calls).2
        (tryEntryIds draws has tries calls).1 := by
  induction tries generalizing calls with
  | zero =>
      refine ⟨?_, Nat.lt_succ_self _, Nat.le_refl _, past_uuidv7 fits calls⟩
      cases used : has (uuidv7 draws calls) with
      | false => exact used
      | true => exact absurd rfl (past _ used calls (Nat.le_refl _) room)
  | succ tries ih =>
      rw [tryEntryIds]
      split
      next unused =>
          exact ⟨by simpa using unused, Nat.lt_succ_self _, by simp, past_short draws _ _ _⟩
      next used =>
          obtain ⟨fresh, more, few, isPast⟩ :=
            ih (by omega) fun id has => (past id has).mono (Nat.le_add_right calls 1)
          exact ⟨fresh, Nat.lt_of_succ_lt more, by omega, isPast⟩

/-- The identifier is not in use, nor will the process make it again. -/
theorem generateEntryId_fresh (fits : Fits draws limit) (has : String → Bool)
    (room : calls + 100 < limit) (past : ∀ id, has id → Past draws limit calls id) :
    has (generateEntryId draws has calls).1 = false ∧
      calls < (generateEntryId draws has calls).2 ∧
      (generateEntryId draws has calls).2 ≤ calls + 101 ∧
      Past draws limit (generateEntryId draws has calls).2 (generateEntryId draws has calls).1 :=
  tryEntryIds_fresh fits has 100 room past

end Fresh

/-! ## Main results -/

/-- Sorted as texts, the identifiers of a process are in the order in which they were made. -/
theorem uuidv7_increases {draws : Nat → Draw} {limit : Nat} (fits : Fits draws limit) :
    ((List.range limit).map (uuidv7 draws)).Pairwise (· < ·) := by
  rw [List.pairwise_map]
  refine List.Pairwise.imp_of_mem (fun _ inRange earlier => ?_) List.pairwise_lt_range
  exact uuidv7_lt draws earlier (fits _ (List.mem_range.mp inRange))

/-- A clock that goes on quickly, and no randomness. -/
def ticking : Nat → Draw := fun n => ⟨n * 0x10000, fun _ => 0⟩

theorem stampAt_ticking (n : Nat) : stampAt ticking n = ⟨n * 0x10000, 0⟩ := by
  induction n with
  | zero => rfl
  | succ n ih =>
      rw [stampAt, ih]
      simp only [nextStamp, ticking]
      rw [if_pos (by omega)]
      rfl

theorem fits_ticking {limit : Nat} (few : limit ≤ 0x100000000) : Fits ticking limit := by
  intro n inside
  rw [stampAt_ticking]
  simp only
  omega

theorem uuidv7_increases_ticking :
    ((List.range 0x100000000).map (uuidv7 ticking)).Pairwise (· < ·) :=
  uuidv7_increases (fits_ticking (Nat.le_refl _))

/-- What `generateEntryId` makes one after the other, each in use before the next one is made, while
nothing else is in use. -/
def entryIdsFrom (draws : Nat → Draw) : Nat → List String → Nat → List String
  | 0, used, _ => used
  | n + 1, used, calls =>
      let made := generateEntryId draws (fun id => used.contains id) calls
      entryIdsFrom draws n (made.1 :: used) made.2

/-- No identifier for an entry is made twice, although the last try is not looked up. -/
theorem entryIdsFrom_nodup {draws : Nat → Draw} {limit n calls : Nat} {used : List String}
    (fits : Fits draws limit) (room : calls + 101 * n ≤ limit)
    (past : ∀ id ∈ used, Past draws limit calls id) (nodup : used.Nodup) :
    (entryIdsFrom draws n used calls).Nodup := by
  induction n generalizing used calls with
  | zero => exact nodup
  | succ n ih =>
      obtain ⟨fresh, more, few, isPast⟩ :=
        generateEntryId_fresh fits (fun id => used.contains id) (by omega)
          fun id there => past id (by simpa using there)
      refine ih (by omega) ?_ (List.nodup_cons.mpr ⟨by simpa using fresh, nodup⟩)
      exact List.forall_mem_cons.mpr
        ⟨isPast, fun id there => (past id there).mono (Nat.le_of_lt more)⟩

theorem entryIdsFrom_nodup_ticking : (entryIdsFrom ticking 1000 [] 0).Nodup :=
  entryIdsFrom_nodup (fits_ticking (by omega : 101000 ≤ 0x100000000)) (by omega) (by simp)
    List.nodup_nil

end NestifyClaw.Agent
