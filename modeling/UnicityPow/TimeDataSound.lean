import UnicityPow.OrderStat
import UnicityPow.TimeData

/-!
# What peers can do to the clock

Each address gives one sample, two hundred give one at all, and the offset is small. A
majority of the samples decides where it can lie.
-/

namespace UnicityPow

/-! ## The median -/

/-- More than half of the values are between `lo` and `hi`. -/
def MajorityIn (lo hi : Int) (l : List Int) : Prop := l.length < 2 * l.countP (fun x => lo ≤ x ∧ x ≤ hi)

instance (lo hi : Int) (l : List Int) : Decidable (MajorityIn lo hi l) := inferInstanceAs (Decidable (_ < _))

theorem countP_split (lo hi : Int) (l : List Int) :
    l.countP (· < lo) + l.countP (fun x => lo ≤ x ∧ x ≤ hi) ≤ l.length ∧
      l.countP (fun x => lo ≤ x ∧ x ≤ hi) ≤ l.countP (· < hi + 1) := by
  induction l with
  | nil => simp
  | cons a l ih =>
    simp only [List.countP_cons, List.length_cons, decide_eq_true_eq]
    obtain ⟨h1, h2⟩ := ih
    constructor <;> split_ifs <;> omega

/-- The middle one of an odd number of values lies where most of them do. -/
theorem middle_mem_of_majority {l : List Int} {lo hi x : Int} (hodd : l.length % 2 = 1) (h : MajorityIn lo hi l)
    (hx : (l.insertionSort (· ≤ ·))[l.length / 2]? = some x) : lo ≤ x ∧ x ≤ hi := by
  obtain ⟨hlow, hhigh⟩ := countP_split lo hi l
  unfold MajorityIn at h
  have hlo := OrderStat.le_sorted_iff (M := lo) hx
  have hhi := OrderStat.le_sorted_iff (M := hi + 1) hx
  refine ⟨hlo.mpr (by omega), ?_⟩
  by_contra hgt
  have := hhi.mp (by omega)
  omega

/-! ## The set of sources -/

theorem addressBefore_iff {a b : NetworkAddress} : addressBefore a b = true ↔
    a.ip.toNat < b.ip.toNat ∨ a.ip.toNat = b.ip.toNat ∧ (a.port.toNat < b.port.toNat ∨
      a.port.toNat = b.port.toNat ∧ a.services.toNat < b.services.toNat) := by
  unfold addressBefore
  by_cases hip : a.ip = b.ip
  · by_cases hport : a.port = b.port
    · simp [hip, hport, BitVec.lt_def]
    · have := mt BitVec.eq_of_toNat_eq hport
      simp [hip, hport, this, BitVec.lt_def]
  · have := mt BitVec.eq_of_toNat_eq hip
    simp [hip, this, BitVec.lt_def]

theorem addressBefore_strictTotal : OrderedSet.StrictTotal addressBefore where
  irrefl a := by simp [addressBefore]
  trans a b d hab hbd := by
    rw [addressBefore_iff] at hab hbd ⊢
    omega
  total a b hab hba := by
    rw [← Bool.not_eq_true, addressBefore_iff] at hab hba
    have hip : a.ip = b.ip := BitVec.eq_of_toNat_eq (by omega)
    have hport : a.port = b.port := BitVec.eq_of_toNat_eq (by omega)
    have hservices : a.services = b.services := BitVec.eq_of_toNat_eq (by omega)
    cases a
    cases b
    simp_all

/-! ## One sample -/

namespace CMedianFilter

/-- The sorted copy is of the values. -/
def Ok (f : CMedianFilter) : Prop := f.vSorted = f.vValues.insertionSort (· ≤ ·)

theorem ok_ofInitial (size : Nat) (x : Int) : (ofInitial size x).Ok := rfl

theorem ok_input (f : CMedianFilter) (x : Int) : (f.input x).Ok := rfl

theorem Ok.median_mem {f : CMedianFilter} (h : f.Ok) {lo hi : Int} (hodd : f.size % 2 = 1)
    (hmaj : MajorityIn lo hi f.vValues) : lo ≤ f.median ∧ f.median ≤ hi := by
  unfold size at hodd
  have hlen : f.vSorted.length = f.vValues.length := by rw [h, List.length_insertionSort]
  obtain ⟨x, hx⟩ : ∃ x, f.vSorted[f.vValues.length / 2]? = some x :=
    ⟨_, List.getElem?_eq_getElem (by omega)⟩
  unfold median
  dsimp only
  rw [if_pos (by omega), hlen, hx]
  rw [h] at hx
  exact middle_mem_of_majority hodd hmaj hx

end CMedianFilter

namespace TimeData

/-- The call gives a sample. -/
def Takes (s : TimeData) (ip : NetworkAddress) : Prop :=
  s.gSources.length ≠ BITCOIN_TIMEDATA_MAX_SAMPLES ∧ ip ∉ s.gSources

/-- The state with the sample, before the offset is looked at. -/
def withSample (s : TimeData) (ip : NetworkAddress) (nOffsetSample : Int) : TimeData :=
  { s with
    gSources := OrderedSet.insert addressBefore ip s.gSources
    gTimeOffsets := s.gTimeOffsets.input nOffsetSample }

/-- The filter holds an odd number of samples, and enough. -/
def Due (s : TimeData) : Prop := 5 ≤ s.gTimeOffsets.size ∧ s.gTimeOffsets.size % 2 = 1

instance (s : TimeData) : Decidable s.Due := inferInstanceAs (Decidable (_ ∧ _))

variable {s : TimeData} {ip : NetworkAddress} {x : Int}

theorem addTimeData_of_not_takes (h : ¬ s.Takes ip) : s.addTimeData ip x = s := by
  unfold addTimeData
  by_cases hfull : s.gSources.length = BITCOIN_TIMEDATA_MAX_SAMPLES
  · rw [if_pos hfull]
  · have hmem : ip ∈ s.gSources := by
      by_contra hno
      exact h ⟨hfull, hno⟩
    rw [if_neg hfull, if_pos ((OrderedSet.contains_iff addressBefore_strictTotal).mpr hmem)]

theorem addTimeData_of_takes (h : s.Takes ip) :
    s.addTimeData ip x =
      if (s.withSample ip x).Due then (s.withSample ip x).updateOffset else s.withSample ip x := by
  unfold addTimeData
  rw [if_neg h.1, if_neg (mt (OrderedSet.contains_iff addressBefore_strictTotal).mp h.2)]
  rfl

@[simp] theorem updateOffset_gSources (s : TimeData) : s.updateOffset.gSources = s.gSources := by
  unfold updateOffset
  dsimp only
  split <;> rfl

@[simp] theorem updateOffset_gTimeOffsets (s : TimeData) : s.updateOffset.gTimeOffsets = s.gTimeOffsets := by
  unfold updateOffset
  dsimp only
  split <;> rfl

/-- The offset becomes the median if that is small, and zero otherwise. -/
theorem updateOffset_nTimeOffset (s : TimeData) :
    s.updateOffset.nTimeOffset = 0 ∨ s.updateOffset.nTimeOffset = s.gTimeOffsets.median ∧
      |s.gTimeOffsets.median| ≤ DEFAULT_MAX_TIME_ADJUSTMENT := by
  unfold updateOffset
  dsimp only
  split
  · rename_i h
    exact .inr ⟨rfl, abs_le.mpr h⟩
  · exact .inl rfl

theorem addTimeData_takes_frame (h : s.Takes ip) :
    (s.addTimeData ip x).gSources = OrderedSet.insert addressBefore ip s.gSources ∧
      (s.addTimeData ip x).gTimeOffsets = s.gTimeOffsets.input x := by
  rw [addTimeData_of_takes h]
  split
  · exact ⟨updateOffset_gSources _, updateOffset_gTimeOffsets _⟩
  · exact ⟨rfl, rfl⟩

/-- The offset is kept, becomes zero, or is the median of an odd filter. -/
theorem addTimeData_nTimeOffset (s : TimeData) (ip : NetworkAddress) (x : Int) :
    (s.addTimeData ip x).nTimeOffset = s.nTimeOffset ∨ (s.addTimeData ip x).nTimeOffset = 0 ∨
      (s.addTimeData ip x).Due ∧ (s.addTimeData ip x).nTimeOffset = (s.addTimeData ip x).gTimeOffsets.median ∧
        |(s.addTimeData ip x).gTimeOffsets.median| ≤ DEFAULT_MAX_TIME_ADJUSTMENT := by
  by_cases h : s.Takes ip
  · rw [addTimeData_of_takes h]
    split
    · rename_i hdue
      rcases updateOffset_nTimeOffset (s.withSample ip x) with h0 | ⟨hm, hsmall⟩
      · exact .inr (.inl h0)
      · refine .inr (.inr ⟨?_, ?_⟩)
        · unfold Due
          rw [updateOffset_gTimeOffsets]
          exact hdue
        · rw [updateOffset_gTimeOffsets]
          exact ⟨hm, hsmall⟩
    · exact .inl rfl
  · rw [addTimeData_of_not_takes h]
    exact .inl rfl

/-! ## Any calls -/

/-- The state after some calls, the oldest first. -/
def after (calls : List (NetworkAddress × Int)) : TimeData :=
  calls.foldl (fun s call => s.addTimeData call.1 call.2) {}

theorem after_concat (calls : List (NetworkAddress × Int)) (call : NetworkAddress × Int) :
    after (calls ++ [call]) = (after calls).addTimeData call.1 call.2 := List.foldl_concat ..

/-- `used` are the calls that gave a sample. -/
structure Sampled (used : List (NetworkAddress × Int)) (s : TimeData) : Prop where
  sources : ∀ ip, ip ∈ s.gSources ↔ ip ∈ used.map Prod.fst
  sorted : OrderedSet.Sorted addressBefore s.gSources
  nodup : (used.map Prod.fst).Nodup
  length_le : used.length ≤ BITCOIN_TIMEDATA_MAX_SAMPLES
  filter : s.gTimeOffsets =
    (used.map Prod.snd).foldl CMedianFilter.input (.ofInitial BITCOIN_TIMEDATA_MAX_SAMPLES 0)

theorem Sampled.sources_length {used : List (NetworkAddress × Int)} (h : Sampled used s) :
    s.gSources.length = used.length := by
  have hperm : s.gSources.Perm (used.map Prod.fst) :=
    (List.perm_ext_iff_of_nodup (h.sorted.nodup addressBefore_strictTotal) h.nodup).mpr h.sources
  rw [hperm.length_eq, List.length_map]

theorem Sampled.addTimeData {used : List (NetworkAddress × Int)} (h : Sampled used s) (htakes : s.Takes ip) :
    Sampled (used ++ [(ip, x)]) (s.addTimeData ip x) := by
  obtain ⟨hfull, hnew⟩ := htakes
  obtain ⟨hsources, hfilter⟩ := addTimeData_takes_frame (x := x) ⟨hfull, hnew⟩
  have hlen := h.sources_length
  have hle := h.length_le
  refine ⟨fun ip' => ?_, ?_, ?_, ?_, ?_⟩
  · rw [hsources, OrderedSet.mem_insert addressBefore_strictTotal, h.sources, List.map_append, List.mem_append]
    simp [or_comm]
  · rw [hsources]
    exact h.sorted.insert addressBefore_strictTotal
  · rw [h.sources] at hnew
    rw [List.map_append, List.nodup_append]
    refine ⟨h.nodup, by simp, fun a ha b hb hab => ?_⟩
    obtain rfl : b = ip := by simpa using hb
    exact hnew (hab ▸ ha)
  · rw [List.length_append, List.length_singleton]
    omega
  · rw [hfilter, h.filter, List.map_append, List.foldl_append]
    rfl

/-- Of any calls, some that come from different addresses, two hundred at most, leave the same state. -/
theorem after_sampled (calls : List (NetworkAddress × Int)) :
    ∃ used, used.Sublist calls ∧ Sampled used (after calls) ∧ after calls = after used := by
  induction calls using List.reverseRecOn with
  | nil =>
    refine ⟨[], .slnil, ⟨by simp [after], OrderedSet.sorted_nil _, by simp, by simp, rfl⟩, rfl⟩
  | append_singleton calls call ih =>
    obtain ⟨used, hsub, hsampled, heq⟩ := ih
    rw [after_concat]
    by_cases htakes : (after calls).Takes call.1
    · refine ⟨used ++ [call], hsub.append (.refl _), hsampled.addTimeData htakes, ?_⟩
      rw [after_concat, heq]
    · rw [addTimeData_of_not_takes htakes]
      exact ⟨used, hsub.trans (List.sublist_append_left _ _), hsampled, heq⟩

theorem after_ok (calls : List (NetworkAddress × Int)) : (after calls).gTimeOffsets.Ok := by
  obtain ⟨used, -, hsampled, -⟩ := after_sampled calls
  rw [hsampled.filter]
  exact List.foldlRecOn _ _ (CMedianFilter.ok_ofInitial _ _) (fun f _ x _ => f.ok_input x)

theorem after_nTimeOffset_le (calls : List (NetworkAddress × Int)) :
    |(after calls).nTimeOffset| ≤ DEFAULT_MAX_TIME_ADJUSTMENT := by
  induction calls using List.reverseRecOn with
  | nil => decide
  | append_singleton calls call ih =>
    rw [after_concat]
    rcases addTimeData_nTimeOffset (after calls) call.1 call.2 with h | h | ⟨-, h, hsmall⟩
    · rw [h]; exact ih
    · rw [h]; decide
    · rw [h]; exact hsmall

theorem after_nTimeOffset_mem {lo hi : Int} : ∀ calls : List (NetworkAddress × Int),
    (∀ l, l <+: calls → (after l).Due → MajorityIn lo hi (after l).gTimeOffsets.vValues) →
    (after calls).nTimeOffset = 0 ∨ lo ≤ (after calls).nTimeOffset ∧ (after calls).nTimeOffset ≤ hi := by
  intro calls
  induction calls using List.reverseRecOn with
  | nil => exact fun _ => .inl rfl
  | append_singleton calls call ih =>
    intro hmaj
    have hpre : ∀ l, l <+: calls → (after l).Due → MajorityIn lo hi (after l).gTimeOffsets.vValues :=
      fun l hl => hmaj l (hl.trans (List.prefix_append _ _))
    have hlast := hmaj (calls ++ [call]) (List.prefix_rfl)
    have hok := after_ok (calls ++ [call])
    rw [after_concat] at hlast hok ⊢
    rcases addTimeData_nTimeOffset (after calls) call.1 call.2 with h | h | ⟨hdue, h, -⟩
    · rw [h]; exact ih hpre
    · exact .inl h
    · rw [h]; exact .inr (hok.median_mem hdue.2 (hlast hdue))

end TimeData

/-- Whatever samples come in, the offset is small, and the state is that of one sample from each
of at most two hundred addresses. Where most samples lie between `lo` and `hi` each time the
filter is odd, so does the offset, or it is zero. -/
theorem timeOffset_bounded (calls : List (NetworkAddress × Int)) :
    |(TimeData.after calls).getTimeOffset| ≤ 4200 ∧
    (∃ used, used.Sublist calls ∧ (used.map Prod.fst).Nodup ∧ used.length ≤ 200 ∧
      TimeData.after calls = TimeData.after used ∧
      (TimeData.after calls).gTimeOffsets = (used.map Prod.snd).foldl CMedianFilter.input (.ofInitial 200 0)) ∧
    ∀ lo hi : Int,
      (∀ l, l <+: calls → 5 ≤ (TimeData.after l).gTimeOffsets.size → (TimeData.after l).gTimeOffsets.size % 2 = 1 →
        (TimeData.after l).gTimeOffsets.size <
          2 * (TimeData.after l).gTimeOffsets.vValues.countP (fun x => lo ≤ x ∧ x ≤ hi)) →
      ∀ l, l <+: calls → (TimeData.after l).getTimeOffset = 0 ∨
        lo ≤ (TimeData.after l).getTimeOffset ∧ (TimeData.after l).getTimeOffset ≤ hi := by
  obtain ⟨used, hsub, hsampled, heq⟩ := TimeData.after_sampled calls
  refine ⟨TimeData.after_nTimeOffset_le calls,
    ⟨used, hsub, hsampled.nodup, hsampled.length_le, heq, hsampled.filter⟩, fun lo hi hmaj l hl => ?_⟩
  exact TimeData.after_nTimeOffset_mem l fun l' hl' hdue => hmaj l' (hl'.trans hl) hdue.1 hdue.2

/-- Four addresses whose clocks are ten seconds ahead. -/
def fourSamples : List (NetworkAddress × Int) :=
  [({ port := 1 }, 10), ({ port := 2 }, 10), ({ port := 3 }, 10), ({ port := 4 }, 10)]

theorem timeOffset_bounded_four : (TimeData.after fourSamples).getTimeOffset = 0 ∨
    10 ≤ (TimeData.after fourSamples).getTimeOffset ∧ (TimeData.after fourSamples).getTimeOffset ≤ 10 := by
  have hmaj : ∀ l ∈ fourSamples.inits, 5 ≤ (TimeData.after l).gTimeOffsets.size →
      (TimeData.after l).gTimeOffsets.size % 2 = 1 → (TimeData.after l).gTimeOffsets.size <
        2 * (TimeData.after l).gTimeOffsets.vValues.countP (fun x => 10 ≤ x ∧ x ≤ 10) := by
    decide +kernel
  exact (timeOffset_bounded fourSamples).2.2 10 10 (fun l hl => hmaj l ((List.mem_inits _ _).mpr hl)) _
    List.prefix_rfl

example : (TimeData.after fourSamples).getTimeOffset = 10 := by decide +kernel

end UnicityPow
