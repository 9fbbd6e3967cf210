import StreamingPlatform.Protocol.Message
import StreamingPlatform.Storage.Messages
import Mathlib.Data.List.Nodup
import Mathlib.Data.List.Pairwise

namespace StreamingPlatform

open ByteString

/-!
# Storage — the keys of the open logs

Which logs exist and which partitions a topic has is read off the keys of the map of open
logs.  `partitions_for_topic` takes every key that begins with the topic and a dash for a
key of the topic and parses what follows.  That is right for the keys of the topic itself
(`stoi_decimalInt`), but `t-0-1`, which is partition 1 of the topic `t-0`, counts as
partition 0 of `t` as well.  `Exact` says that there is no such key;
`partitionsForTopic_exact_iff` says for which appends the listing is right.
-/

/-! ### Reading a numeral back -/

theorem isDigit_of_mem_decimal {n : Nat} {b : UInt8} (hb : b ∈ decimal n) : isDigit b = true := by
  obtain ⟨hlow, hhigh⟩ := mem_decimal hb
  unfold isDigit
  rw [Bool.and_eq_true, decide_eq_true_eq, decide_eq_true_eq, UInt8.le_iff_toNat_le,
    UInt8.le_iff_toNat_le]
  exact ⟨hlow, hhigh⟩

/-- A numeral has at least one digit, and no sign or blank in front of it. -/
theorem decimal_eq_cons (n : Nat) : ∃ b bs, decimal n = b :: bs ∧ 48 ≤ b.toNat ∧ b.toNat ≤ 57 := by
  cases h : decimal n with
  | nil =>
    have hchars := decimal_chars n
    rw [h] at hchars
    have hnum := Nat.ofDigitChars_ten_toDigits (n := n)
    rw [← hchars] at hnum
    obtain rfl : 0 = n := hnum
    exact absurd h (by decide)
  | cons b bs =>
    exact ⟨b, bs, rfl, mem_decimal (by rw [h]; exact List.mem_cons_self)⟩

/-- The digits of a numeral, added up as `stoi` does. -/
theorem foldl_decimal (n : Nat) :
    (decimal n).foldl (fun v byte => v * 10 + (byte.toNat - 48)) 0 = n := by
  have hfold : ∀ (cs : List Char) (v : Nat), (∀ c ∈ cs, c.isDigit) →
      (cs.map (fun c => UInt8.ofNat c.toNat)).foldl (fun v byte => v * 10 + (byte.toNat - 48)) v
        = Nat.ofDigitChars 10 cs v := by
    intro cs
    induction cs with
    | nil => exact fun _ _ => rfl
    | cons c cs ih =>
      intro v hcs
      rw [List.map_cons, List.foldl_cons, toNat_ofNat_of_isDigit (hcs c List.mem_cons_self),
        ih _ (fun c' hc' => hcs c' (List.mem_cons_of_mem _ hc')), Nat.mul_comm]
      rfl
  refine (hfold _ 0 (fun c hc => ?_)).trans Nat.ofDigitChars_ten_toDigits
  exact Nat.isDigit_of_mem_toDigits (by decide) (by decide) hc

/-- A number is read to its end. -/
theorem takeWhile_decimal (n : Nat) : (decimal n).takeWhile isDigit = decimal n := by
  have hall : ∀ {bs : Bytes}, (∀ b ∈ bs, isDigit b = true) → bs.takeWhile isDigit = bs := by
    intro bs
    induction bs with
    | nil => exact fun _ => rfl
    | cons b bs ih =>
      intro h
      rw [List.takeWhile_cons_of_pos (h b List.mem_cons_self),
        ih (fun b' hb' => h b' (List.mem_cons_of_mem _ hb'))]
  exact hall (fun b hb => isDigit_of_mem_decimal hb)

variable {p : Int}

/-- What `std::to_string` writes for an `int`, `std::stoi` reads back. -/
theorem stoi_decimalInt (h : IsInt32 p) : stoi (decimalInt p) = some p := by
  have hrange : -2 ^ 31 ≤ p ∧ p < 2 ^ 31 := h
  have hne : ∀ n, decimal n ≠ [] := by
    intro n
    obtain ⟨b, bs, hcons, -⟩ := decimal_eq_cons n
    rw [hcons]
    exact List.cons_ne_nil b bs
  cases p with
  | ofNat n =>
    obtain ⟨b, bs, hcons, hlow, -⟩ := decimal_eq_cons n
    -- the first digit is neither a blank nor a sign
    have hspace : isSpace b = false := by
      unfold isSpace
      rw [Bool.or_eq_false_iff, beq_eq_false_iff_ne, Bool.and_eq_false_iff, decide_eq_false_iff_not,
        decide_eq_false_iff_not, UInt8.le_iff_toNat_le, UInt8.le_iff_toNat_le]
      refine ⟨?_, .inr (by have : (13 : UInt8).toNat = 13 := rfl; omega)⟩
      rintro rfl
      exact absurd hlow (by decide)
    have hminus : (decimal n).head? ≠ some 45 := by
      rw [hcons]
      rintro heq
      rw [Option.some.inj heq] at hlow
      exact absurd hlow (by decide)
    have hplus : (decimal n).head? ≠ some 43 := by
      rw [hcons]
      rintro heq
      rw [Option.some.inj heq] at hlow
      exact absurd hlow (by decide)
    have hdrop : (decimal n).dropWhile isSpace = decimal n := by
      rw [hcons, List.dropWhile_cons_of_neg (by rw [hspace]; decide)]
    simp only [stoi, decimalInt, hdrop, beq_eq_false_iff_ne.mpr hminus,
      beq_eq_false_iff_ne.mpr hplus, Bool.or_self, Bool.false_eq_true, if_false,
      takeWhile_decimal, foldl_decimal, hne n]
    exact if_pos hrange
  | negSucc n =>
    have hdrop : (45 :: decimal (n + 1)).dropWhile isSpace = 45 :: decimal (n + 1) :=
      List.dropWhile_cons_of_neg (by decide)
    have hvalue : -((n + 1 : Nat) : Int) = Int.negSucc n := rfl
    simp only [stoi, decimalInt, hdrop, List.head?_cons, beq_self_eq_true, Bool.true_or, if_true,
      List.drop_succ_cons, List.drop_zero, takeWhile_decimal, foldl_decimal, hne (n + 1), if_false,
      hvalue]
    exact if_pos hrange

/-! ### Keys -/

namespace StorageEngine

variable {L : Type}

/-- The keys of the open logs. -/
def keys (engine : StorageEngine L) : List Bytes := engine.logs.map Prod.fst

/-- The map finds its keys. -/
theorem isSome_find?_iff (engine : StorageEngine L) (key : Bytes) :
    (engine.find? key).isSome = true ↔ key ∈ engine.keys := by
  rw [find?, List.lookup_isSome_iff, keys, List.mem_map]
  constructor
  · rintro ⟨e, he, hkey⟩
    exact ⟨e, he, (beq_iff_eq.mp hkey).symm⟩
  · rintro ⟨e, he, rfl⟩
    exact ⟨e, he, beq_self_eq_true e.1⟩

theorem hasLog_iff (engine : StorageEngine L) (topic : Bytes) (partition : Int) :
    engine.hasLog topic partition = true ↔ makeKey topic partition ∈ engine.keys :=
  engine.isSome_find?_iff _

theorem keys_setLog (engine : StorageEngine L) (key : Bytes) (log : L) :
    (engine.setLog key log).keys = engine.keys := by
  unfold setLog keys
  rw [List.map_map]
  refine List.map_congr_left (fun e _ => ?_)
  show (if e.1 = key then (key, log) else e).1 = e.1
  split
  · next h => exact h.symm
  · rfl

/-- An append opens the log of its key if it was not open. -/
theorem keys_append (ops : LogOps L) (engine : StorageEngine L) (topic : Bytes) (partition : Int)
    (message : Bytes) :
    (engine.append ops topic partition message).2.keys
      = if makeKey topic partition ∈ engine.keys then engine.keys
        else engine.keys ++ [makeKey topic partition] := by
  unfold append
  dsimp only
  rw [keys_setLog, getOrCreateLog]
  cases h : engine.find? (makeKey topic partition) with
  | some log =>
    rw [if_pos ((engine.isSome_find?_iff _).mp (by rw [h]; rfl))]
  | none =>
    have hnot : makeKey topic partition ∉ engine.keys := by
      rw [← isSome_find?_iff, h]
      exact Bool.false_ne_true
    rw [if_neg hnot]
    exact List.map_append

/-- An append adds one key at most. -/
theorem mem_keys_append (ops : LogOps L) (engine : StorageEngine L) (topic : Bytes)
    (partition : Int) (message : Bytes) (key : Bytes) :
    key ∈ (engine.append ops topic partition message).2.keys
      ↔ key ∈ engine.keys ∨ key = makeKey topic partition := by
  rw [keys_append]
  split
  · next h =>
    constructor
    · exact .inl
    · rintro (hkey | rfl)
      · exact hkey
      · exact h
  · rw [List.mem_append, List.mem_singleton]

theorem nodup_keys_append (ops : LogOps L) {engine : StorageEngine L} (h : engine.keys.Nodup)
    (topic : Bytes) (partition : Int) (message : Bytes) :
    (engine.append ops topic partition message).2.keys.Nodup := by
  rw [keys_append]
  split
  · exact h
  · next hnot => exact List.nodup_append'.mpr ⟨h, List.nodup_singleton _, by simpa using hnot⟩

/-- Keys stay distinct. -/
theorem nodup_keys_appendAll (ops : LogOps L) {engine : StorageEngine L} (h : engine.keys.Nodup)
    (appends : List (Bytes × Int × Bytes)) : (engine.appendAll ops appends).keys.Nodup := by
  induction appends generalizing engine with
  | nil => exact h
  | cons a appends ih =>
    obtain ⟨topic, partition, message⟩ := a
    exact ih (nodup_keys_append ops h topic partition message)

/-! ### The partitions of a topic -/

/-- `stoi` returns an `int`. -/
theorem isInt32_of_stoi {s : Bytes} (h : stoi s = some p) : IsInt32 p := by
  unfold stoi at h
  obtain ⟨-, hrange, hp⟩ :=
    (Option.ite_none_left_eq_some.mp h).imp_right Option.ite_none_right_eq_some.mp
  rw [← Option.some.inj hp]
  exact hrange

/-- What `partitions_for_topic` reads off one key. -/
def partitionOf (topic key : Bytes) : Option Int :=
  if (topic ++ ofString "-").isPrefixOf key then stoi (key.drop (topic ++ ofString "-").length)
  else none

/-- A key counts for a topic if a number follows `topic-`. -/
theorem partitionOf_eq_some {topic key : Bytes} :
    partitionOf topic key = some p
      ↔ ∃ rest, key = topic ++ ofString "-" ++ rest ∧ stoi rest = some p := by
  unfold partitionOf
  constructor
  · intro h
    split at h
    · next hpre =>
      obtain ⟨rest, rfl⟩ := List.isPrefixOf_iff_prefix.mp hpre
      rw [List.drop_left' rfl] at h
      exact ⟨rest, rfl, h⟩
    · exact absurd h (by simp)
  · rintro ⟨rest, rfl, h⟩
    rw [if_pos (List.isPrefixOf_iff_prefix.mpr (List.prefix_append _ _)), List.drop_left' rfl]
    exact h

/-- Sorting loses nothing. -/
theorem partitionsForTopic_perm (engine : StorageEngine L) (topic : Bytes) :
    (engine.partitionsForTopic topic).Perm (engine.keys.filterMap (partitionOf topic)) :=
  List.perm_insertionSort _ _

/-- A partition is listed if one of the keys counts as it. -/
theorem mem_partitionsForTopic {engine : StorageEngine L} {topic : Bytes} :
    p ∈ engine.partitionsForTopic topic
      ↔ ∃ rest, topic ++ ofString "-" ++ rest ∈ engine.keys ∧ stoi rest = some p := by
  rw [(engine.partitionsForTopic_perm topic).mem_iff, List.mem_filterMap]
  constructor
  · rintro ⟨key, hkey, hp⟩
    obtain ⟨rest, rfl, hrest⟩ := partitionOf_eq_some.mp hp
    exact ⟨rest, hkey, hrest⟩
  · rintro ⟨rest, hkey, hrest⟩
    exact ⟨_, hkey, partitionOf_eq_some.mpr ⟨rest, rfl, hrest⟩⟩

/-- No two open logs give the topic the same partition. -/
def Unambiguous (engine : StorageEngine L) (topic : Bytes) : Prop :=
  ∀ key ∈ engine.keys, ∀ key' ∈ engine.keys, ∀ p ∈ partitionOf topic key,
    partitionOf topic key' = some p → key = key'

instance (engine : StorageEngine L) (topic : Bytes) : Decidable (engine.Unambiguous topic) :=
  inferInstanceAs (Decidable (∀ key ∈ engine.keys, ∀ key' ∈ engine.keys,
    ∀ p ∈ partitionOf topic key, partitionOf topic key' = some p → key = key'))

/-- Each partition is then listed once. -/
theorem Unambiguous.nodup {engine : StorageEngine L} {topic : Bytes} (h : engine.Unambiguous topic)
    (hkeys : engine.keys.Nodup) : (engine.partitionsForTopic topic).Nodup := by
  rw [(engine.partitionsForTopic_perm topic).nodup_iff, List.Nodup, List.pairwise_filterMap]
  refine hkeys.imp_of_mem (fun {key key'} hkey hkey' hne p hp p' hp' heq => hne ?_)
  exact h key hkey key' hkey' p hp (heq ▸ hp')

/-- The topic has a log for this partition, which is a non-negative `int`. -/
def HasPartition (engine : StorageEngine L) (topic : Bytes) (p : Int) : Prop :=
  0 ≤ p ∧ IsInt32 p ∧ engine.hasLog topic p = true

instance (engine : StorageEngine L) (topic : Bytes) (p : Int) :
    Decidable (engine.HasPartition topic p) :=
  inferInstanceAs (Decidable (_ ∧ _))

/-- An append gives the partition of its own topic a log, and nothing else. -/
theorem hasPartition_append (ops : LogOps L) (engine : StorageEngine L) {topic topic' : Bytes}
    {partition : Int} (hpos : 0 ≤ partition) (hint : IsInt32 partition) (message : Bytes) :
    (engine.append ops topic partition message).2.HasPartition topic' p
      ↔ engine.HasPartition topic' p ∨ (topic' = topic ∧ p = partition) := by
  unfold HasPartition
  rw [hasLog_iff, hasLog_iff, mem_keys_append]
  constructor
  · rintro ⟨hp, hp', hkey | hkey⟩
    · exact .inl ⟨hp, hp', hkey⟩
    · exact .inr (makeKey_injective hp hpos hkey)
  · rintro (⟨hp, hp', hkey⟩ | ⟨rfl, rfl⟩)
    · exact ⟨hp, hp', .inl hkey⟩
    · exact ⟨hpos, hint, .inr rfl⟩

variable {appends : List (Bytes × Int × Bytes)}

/-- Appends to other topics give a topic no logs. -/
theorem hasPartition_appendAll (ops : LogOps L) {engine : StorageEngine L} {topic : Bytes}
    (h : ∀ a ∈ appends, a.1 ≠ topic ∧ 0 ≤ a.2.1 ∧ IsInt32 a.2.1) :
    (engine.appendAll ops appends).HasPartition topic p ↔ engine.HasPartition topic p := by
  induction appends generalizing engine with
  | nil => rfl
  | cons a appends ih =>
    obtain ⟨topic', partition, message⟩ := a
    obtain ⟨hne, hpos, hint⟩ := h _ List.mem_cons_self
    rw [appendAll, ih (fun a ha => h a (List.mem_cons_of_mem _ ha)),
      hasPartition_append ops engine hpos hint]
    constructor
    · rintro (hp | ⟨rfl, -⟩)
      · exact hp
      · exact absurd rfl hne
    · exact .inl

/-- Every open key from which a partition of the topic is read is the key of that partition
    of the topic, which is not negative. -/
def Exact (engine : StorageEngine L) (topic : Bytes) : Prop :=
  ∀ key ∈ engine.keys, ∀ p ∈ partitionOf topic key, 0 ≤ p ∧ key = makeKey topic p

instance (engine : StorageEngine L) (topic : Bytes) : Decidable (engine.Exact topic) :=
  inferInstanceAs (Decidable (∀ key ∈ engine.keys, ∀ p ∈ partitionOf topic key,
    0 ≤ p ∧ key = makeKey topic p))

section Exact

variable {engine : StorageEngine L} {topic : Bytes}

/-- The partitions are then those that have a log. -/
theorem Exact.mem_iff (h : engine.Exact topic) :
    p ∈ engine.partitionsForTopic topic ↔ engine.HasPartition topic p := by
  rw [mem_partitionsForTopic, HasPartition, hasLog_iff]
  constructor
  · rintro ⟨rest, hkey, hrest⟩
    obtain ⟨hp, heq⟩ := h _ hkey p (partitionOf_eq_some.mpr ⟨rest, rfl, hrest⟩)
    exact ⟨hp, isInt32_of_stoi hrest, heq ▸ hkey⟩
  · rintro ⟨-, hp, hkey⟩
    exact ⟨decimalInt p, hkey, stoi_decimalInt hp⟩

theorem Exact.unambiguous (h : engine.Exact topic) : engine.Unambiguous topic := by
  intro key hkey key' hkey' p hp hp'
  rw [(h key hkey p hp).2, (h key' hkey' p hp').2]

/-- An append to the topic itself opens a log that is read back rightly. -/
theorem Exact.append (h : engine.Exact topic) (ops : LogOps L) {partition : Int}
    (hpos : 0 ≤ partition) (hint : IsInt32 partition) (message : Bytes) :
    (engine.append ops topic partition message).2.Exact topic := by
  intro key hkey p hp
  rcases (mem_keys_append ..).mp hkey with hold | rfl
  · exact h key hold p hp
  · obtain ⟨rest, hrest, hstoi⟩ := partitionOf_eq_some.mp hp
    rw [← List.append_cancel_left hrest, stoi_decimalInt hint] at hstoi
    obtain rfl := Option.some.inj hstoi
    exact ⟨hpos, rfl⟩

/-- Appends to plain partitions keep the list exact. -/
theorem Exact.appendAll (h : engine.Exact topic) (ops : LogOps L)
    (happends : ∀ a ∈ appends, a.1 = topic ∧ 0 ≤ a.2.1 ∧ IsInt32 a.2.1) :
    (engine.appendAll ops appends).Exact topic := by
  induction appends generalizing engine with
  | nil => exact h
  | cons a appends ih =>
    obtain ⟨topic', partition, message⟩ := a
    obtain ⟨rfl, hpos, hint⟩ := happends _ List.mem_cons_self
    exact ih (h.append ops hpos hint message)
      (fun a ha => happends a (List.mem_cons_of_mem _ ha))

end Exact

/-! ### Listings of what was appended -/

theorem mem_keys_appendAll (ops : LogOps L) (engine : StorageEngine L)
    (appends : List (Bytes × Int × Bytes)) (key : Bytes) :
    key ∈ (engine.appendAll ops appends).keys
      ↔ key ∈ engine.keys ∨ ∃ a ∈ appends, key = makeKey a.1 a.2.1 := by
  induction appends generalizing engine with
  | nil => simp [appendAll]
  | cons a appends ih =>
    obtain ⟨topic, partition, message⟩ := a
    rw [appendAll, ih, mem_keys_append]
    simp only [List.mem_cons, exists_eq_or_imp, or_assoc]

/-- What `partitions_for_topic` reads off the key of another topic. -/
def Misread (topic topic' : Bytes) (partition : Int) : Prop :=
  topic' ≠ topic ∧ (partitionOf topic (makeKey topic' partition)).isSome = true

instance (topic topic' : Bytes) (partition : Int) : Decidable (Misread topic topic' partition) :=
  inferInstanceAs (Decidable (_ ∧ _))

/-- Every partition counts for its own topic. -/
theorem partitionOf_makeKey {topic : Bytes} (hp : IsInt32 p) :
    partitionOf topic (makeKey topic p) = some p :=
  partitionOf_eq_some.mpr ⟨decimalInt p, rfl, stoi_decimalInt hp⟩

/-- Two keys that are read as the same partition are both listed. -/
theorem key_unique_of_nodup {engine : StorageEngine L} {topic key key' : Bytes}
    (hnodup : (engine.partitionsForTopic topic).Nodup) (hkey : key ∈ engine.keys)
    (hkey' : key' ∈ engine.keys) (hp : partitionOf topic key = some p)
    (hp' : partitionOf topic key' = some p) : key = key' := by
  rw [(engine.partitionsForTopic_perm topic).nodup_iff, List.Nodup, List.pairwise_filterMap]
    at hnodup
  have hsymm : Std.Symm (fun key key' => ∀ b, partitionOf topic key = some b →
      ∀ b', partitionOf topic key' = some b' → b ≠ b') :=
    ⟨fun _ _ h b hb b' hb' heq => h b' hb' b hb heq.symm⟩
  by_contra hne
  exact hnodup.forall hkey hkey' hne p hp p hp' rfl

/-- Without misread keys, the keys of the appends are read back rightly. -/
theorem exact_appendAll (ops : LogOps L) (happends : ∀ a ∈ appends, 0 ≤ a.2.1 ∧ IsInt32 a.2.1)
    {topic : Bytes} (hread : ∀ a ∈ appends, ¬ Misread topic a.1 a.2.1) :
    (StorageEngine.appendAll ops {} appends).Exact topic := by
  intro key hkey p hp
  rcases (mem_keys_appendAll ops {} appends key).mp hkey with hnone | ⟨a, ha, rfl⟩
  · exact absurd hnone (by simp [keys])
  · obtain ⟨hpos, hint⟩ := happends a ha
    have htopic : a.1 = topic := by
      by_contra hne
      exact hread a ha ⟨hne, by rw [show partitionOf topic _ = some p from hp]; rfl⟩
    rw [htopic] at hp ⊢
    obtain rfl : a.2.1 = p := Option.some.inj ((partitionOf_makeKey hint).symm.trans hp)
    exact ⟨hpos, rfl⟩

/-- **Partition listings.**  After any appends, `partitions_for_topic` lists, in strictly
    increasing order, exactly the partitions of the topic that were appended to, if and only if
    no append was to another topic whose key is read as a partition of this one. -/
theorem partitionsForTopic_exact_iff (ops : LogOps L) (appends : List (Bytes × Int × Bytes))
    (happends : ∀ a ∈ appends, 0 ≤ a.2.1 ∧ IsInt32 a.2.1) (topic : Bytes) :
    (((StorageEngine.appendAll ops {} appends).partitionsForTopic topic).Pairwise (· < ·) ∧
        ∀ p, p ∈ (StorageEngine.appendAll ops {} appends).partitionsForTopic topic
          ↔ ∃ message, (topic, p, message) ∈ appends)
      ↔ ∀ a ∈ appends, ¬ Misread topic a.1 a.2.1 := by
  have hkeys := mem_keys_appendAll ops {} appends
  have hempty : (({} : StorageEngine L)).keys.Nodup := List.nodup_nil
  have hnodup := nodup_keys_appendAll ops hempty appends
  generalize hengine : StorageEngine.appendAll ops {} appends = engine at *
  have hmem : ∀ a ∈ appends, makeKey a.1 a.2.1 ∈ engine.keys :=
    fun a ha => (hkeys _).mpr (.inr ⟨a, ha, rfl⟩)
  constructor
  · rintro ⟨hsorted, hlisted⟩ a ha ⟨hne, hsome⟩
    obtain ⟨q, hq⟩ := Option.isSome_iff_exists.mp hsome
    -- the misread partition is listed, so it belongs to the topic and is listed once more
    obtain ⟨rest, hrest, hstoi⟩ := partitionOf_eq_some.mp hq
    have hqmem : q ∈ engine.partitionsForTopic topic :=
      mem_partitionsForTopic.mpr ⟨rest, hrest ▸ hmem a ha, hstoi⟩
    obtain ⟨message, hown⟩ := (hlisted q).mp hqmem
    obtain ⟨hpos, hint⟩ := happends _ hown
    have hsame := key_unique_of_nodup (hsorted.imp ne_of_lt) (hmem a ha) (hmem _ hown) hq
      (partitionOf_makeKey hint)
    exact hne (makeKey_injective (happends a ha).1 hpos hsame).1
  · intro hread
    have hexact : engine.Exact topic := hengine ▸ exact_appendAll ops happends hread
    constructor
    · have hsorted : (engine.partitionsForTopic topic).Pairwise (· ≤ ·) :=
        List.pairwise_insertionSort _ _
      exact hsorted.imp₂ (fun _ _ hle hne => lt_of_le_of_ne hle hne)
        (hexact.unambiguous.nodup hnodup)
    · intro p
      rw [hexact.mem_iff, HasPartition, hasLog_iff, hkeys]
      constructor
      · rintro ⟨hpos, -, hnone | ⟨a, ha, hkey⟩⟩
        · exact absurd hnone (by simp [keys])
        · obtain ⟨rfl, rfl⟩ := makeKey_injective hpos (happends a ha).1 hkey
          exact ⟨a.2.2, ha⟩
      · rintro ⟨message, ha⟩
        exact ⟨(happends _ ha).1, (happends _ ha).2, .inr ⟨_, ha, rfl⟩⟩

/-- Two partitions of one topic beside a topic whose name extends it by a letter. -/
theorem partitionsForTopic_exact_iff_two :
    let engine := StorageEngine.appendAll (messageLogs (fun _ => [])) {}
      [(ofString "t", 10, [1]), (ofString "t-x", 3, [2]), (ofString "t", 2, [3])]
    (engine.partitionsForTopic (ofString "t")).Pairwise (· < ·) ∧
      10 ∈ engine.partitionsForTopic (ofString "t") := by
  intro engine
  have hexact := (partitionsForTopic_exact_iff (messageLogs (fun _ => []))
    [(ofString "t", 10, [1]), (ofString "t-x", 3, [2]), (ofString "t", 2, [3])] (by decide)
    (ofString "t")).mpr (by decide)
  exact ⟨hexact.1, (hexact.2 10).mpr ⟨[1], List.mem_cons_self⟩⟩

/-- **Keys of other topics are listed.**
    * Partition 1 of `t-0` is listed as partition 0 of `t`, to which nothing was appended.
    * With partition 0 of `t` itself, it is listed twice.
    * Partition 5 of `t-` is listed as partition -5 of `t`. -/
theorem partitionsForTopic_lists_other_topics :
    let ops := fileLogs (fun _ => []) 1024 64
    let listing := fun appends =>
      (StorageEngine.appendAll ops {} appends).partitionsForTopic (ofString "t")
    listing [(ofString "t-0", 1, [7])] = [0] ∧
      listing [(ofString "t", 0, [7]), (ofString "t-0", 1, [7])] = [0, 0] ∧
      listing [(ofString "t-", 5, [7])] = [-5] := by
  decide +kernel

end StorageEngine

end StreamingPlatform
