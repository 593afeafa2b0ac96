import Livehost.Infra.Tiling
import Livehost.Static.AudioCapture
import Mathlib.Tactic.Linarith

/-!
# The downsampler tiles its input

The borders of the blocks are the floors of the multiples of `ratio`, and `outLength` is chosen so
that the last one is within the input.

* `sumBlock_eq` — a block within the input is summed without a gap
* `downsampleSample_eq` — an output, with its borders, its reads and its bounds
* `downsample_tiles` — the blocks of every input and every pair of rates
-/

namespace Livehost

open Infra

variable {input : List Rat} {ratio : Rat}

/-! ## One block -/

theorem foldl_add (js : List Nat) (hjs : ∀ j ∈ js, j < input.length) (sum : Rat) (count : Nat)
    (reads : List Nat) :
    ∃ total, js.foldl (BlockSum.add input) ⟨some sum, count, reads⟩
      = ⟨some total, count + js.length, reads ++ js⟩ := by
  induction js generalizing sum count reads with
  | nil => exact ⟨sum, by simp⟩
  | cons j js ih =>
    have hj := hjs j List.mem_cons_self
    obtain ⟨total, htotal⟩ := ih (fun i hi => hjs i (List.mem_cons_of_mem _ hi))
      (sum + input[j]) (count + 1) (reads ++ [j])
    refine ⟨total, ?_⟩
    have hadd : BlockSum.add input ⟨some sum, count, reads⟩ j
        = ⟨some (sum + input[j]), count + 1, reads ++ [j]⟩ := by
      simp [BlockSum.add, hj]
    rw [List.foldl_cons, hadd, htotal, List.length_cons, List.append_assoc]
    congr 1
    omega

theorem sumBlock_eq (start : Nat) {stop : Nat} (hstop : stop ≤ input.length) :
    ∃ total, sumBlock input start stop
      = ⟨some total, stop - start, List.range' start (stop - start)⟩ := by
  have hreads : ∀ j ∈ List.range' start (stop - start), j < input.length := by
    intro j hj
    rw [List.mem_range'_1] at hj
    omega
  obtain ⟨total, htotal⟩ := foldl_add _ hreads 0 0 []
  exact ⟨total, by simpa [sumBlock] using htotal⟩

theorem scaled_clamped (sample : Rat) :
    -32768 ≤ scaled (clamped sample) ∧ scaled (clamped sample) ≤ 32767 := by
  have hlow : -1 ≤ clamped sample := le_max_left _ _
  have hhigh : clamped sample ≤ 1 := max_le (by norm_num) (min_le_left _ _)
  unfold scaled
  split <;> constructor <;> linarith

/-! ## The borders -/

/-- Where the block of an output starts. -/
def border (ratio : Rat) (i : Nat) : Nat := ⌊(i : Rat) * ratio⌋₊

theorem border_le (hratio : 0 < ratio) {i : Nat} (hi : i ≤ outLength input ratio) :
    border ratio i ≤ input.length := by
  have hquot : (0 : Rat) ≤ input.length / ratio := div_nonneg (Nat.cast_nonneg _) hratio.le
  have hle : (i : Rat) ≤ input.length / ratio := (Nat.le_floor_iff hquot).mp hi
  exact Nat.floor_le_of_le ((le_div_iff₀ hratio).mp hle)

theorem border_lt (hratio : 0 < ratio) {i : Nat} (hi : i < outLength input ratio) :
    border ratio i < input.length := by
  have hquot : (0 : Rat) ≤ input.length / ratio := div_nonneg (Nat.cast_nonneg _) hratio.le
  have hle : ((i + 1 : Nat) : Rat) ≤ input.length / ratio := (Nat.le_floor_iff hquot).mp hi
  have hmul : ((i + 1 : Nat) : Rat) * ratio ≤ input.length := (le_div_iff₀ hratio).mp hle
  have hi0 : (0 : Rat) ≤ i * ratio := mul_nonneg (Nat.cast_nonneg _) hratio.le
  rw [border, Nat.floor_lt hi0]
  push_cast at hmul
  linarith

/-- **What is left behind the last block.** -/
theorem length_lt (hratio : 0 < ratio) :
    (input.length : Rat) < border ratio (outLength input ratio) + (ratio + 1) := by
  have hlength : (input.length : Rat) / ratio < outLength input ratio + 1 := Nat.lt_floor_add_one _
  have hborder : (outLength input ratio : Rat) * ratio
      < border ratio (outLength input ratio) + 1 := Nat.lt_floor_add_one _
  rw [div_lt_iff₀ hratio] at hlength
  linarith

/-- **An output**: the borders of its block, and what it reads and holds. -/
theorem downsampleSample_eq (hratio : 0 < ratio) {i : Nat} (hi : i < outLength input ratio) :
    let s := downsampleSample input ratio i
    s.start = border ratio i ∧ s.stop = border ratio (i + 1) ∧
      (∀ j ∈ s.reads, j < input.length) ∧
      (s.start < s.stop → s.reads = List.range' s.start (s.stop - s.start)) ∧
      ∃ v, s.value = some v ∧ -32768 ≤ v ∧ v ≤ 32767 := by
  have hstop : border ratio (i + 1) ≤ input.length := border_le hratio hi
  obtain ⟨total, htotal⟩ := sumBlock_eq (border ratio i) hstop
  have hmin : min ⌊((i + 1 : Nat) : Rat) * ratio⌋₊ input.length = border ratio (i + 1) :=
    Nat.min_eq_left hstop
  have hstart : ⌊(i : Rat) * ratio⌋₊ = border ratio i := rfl
  simp only [downsampleSample, hmin, hstart, htotal]
  by_cases hempty : border ratio (i + 1) - border ratio i = 0
  · -- an empty block reads its start alone
    have hlt := border_lt hratio hi
    rw [if_neg (not_not_intro hempty), hempty]
    exact ⟨trivial, trivial, by simpa using hlt, by omega, _, rfl, scaled_clamped _⟩
  · rw [if_pos hempty]
    refine ⟨trivial, trivial, fun j hj => ?_, fun _ => rfl, _, rfl, scaled_clamped _⟩
    rw [List.mem_range'_1] at hj
    omega

/-! ## All blocks -/

/-- The outputs average blocks that tile the input up to what no block is left for. -/
structure Tiled (input : List Rat) (ratio : Rat) (samples : List PcmSample) : Prop where
  nonempty : ∀ s ∈ samples, s.start < s.stop
  averaged : ∀ s ∈ samples, s.reads = List.range' s.start (s.stop - s.start)
  first : ∀ s ∈ samples.head?, s.start = 0
  contiguous : ∀ i s s', samples[i]? = some s → samples[i + 1]? = some s' → s.stop = s'.start
  disjoint : samples.Pairwise fun s s' => s.stop ≤ s'.start
  covers : samples.flatMap (·.reads) = List.range ⌊(outLength input ratio : Rat) * ratio⌋₊
  within : ⌊(outLength input ratio : Rat) * ratio⌋₊ ≤ input.length
  left : (input.length : Rat) < ⌊(outLength input ratio : Rat) * ratio⌋₊ + (ratio + 1)

theorem tiled (hratio : 1 ≤ ratio) :
    Tiled input ratio
      ((List.range (outLength input ratio)).map (downsampleSample input ratio)) := by
  have hpos : 0 < ratio := zero_lt_one.trans_le hratio
  have hlt : ∀ i, border ratio i < border ratio (i + 1) := floor_mul_lt hratio
  have hmono : Monotone (border ratio) := floor_mul_mono hpos.le
  have hsample : ∀ i, i < outLength input ratio →
      (downsampleSample input ratio i).start = border ratio i ∧
      (downsampleSample input ratio i).stop = border ratio (i + 1) ∧
      (downsampleSample input ratio i).reads = block (border ratio) i := by
    intro i hi
    obtain ⟨hstart, hstop, -, hreads, -⟩ := downsampleSample_eq hpos hi
    refine ⟨hstart, hstop, ?_⟩
    rw [hreads (by rw [hstart, hstop]; exact hlt i), hstart, hstop]
    rfl
  have hget : ∀ {i : Nat} {s : PcmSample}, ((List.range (outLength input ratio)).map
      (downsampleSample input ratio))[i]? = some s →
      i < outLength input ratio ∧ s = downsampleSample input ratio i := by
    intro i s hs
    rw [List.getElem?_map, Option.map_eq_some_iff] at hs
    obtain ⟨k, hk, rfl⟩ := hs
    obtain ⟨hi, hk⟩ := List.getElem?_eq_some_iff.mp hk
    rw [List.getElem_range] at hk
    exact ⟨by simpa using hi, by rw [hk]⟩
  refine ⟨fun s hs => ?_, fun s hs => ?_, fun s hs => ?_, fun i s s' hs hs' => ?_, ?_, ?_, ?_, ?_⟩
  · obtain ⟨i, hi, rfl⟩ := List.mem_map.mp hs
    obtain ⟨hstart, hstop, -⟩ := hsample i (List.mem_range.mp hi)
    rw [hstart, hstop]
    exact hlt i
  · obtain ⟨i, hi, rfl⟩ := List.mem_map.mp hs
    obtain ⟨hstart, hstop, hreads⟩ := hsample i (List.mem_range.mp hi)
    rw [hstart, hstop, hreads]
    rfl
  · rw [List.head?_eq_getElem?] at hs
    obtain ⟨hi, rfl⟩ := hget hs
    rw [(hsample 0 hi).1]
    simp [border]
  · obtain ⟨hi, rfl⟩ := hget hs
    obtain ⟨hi', rfl⟩ := hget hs'
    rw [(hsample i hi).2.1, (hsample (i + 1) hi').1]
  · refine List.pairwise_map.mpr (List.pairwise_lt_range.imp_of_mem fun {i j} hi hj hij => ?_)
    rw [(hsample i (List.mem_range.mp hi)).2.1, (hsample j (List.mem_range.mp hj)).1]
    exact hmono hij
  · have hzero : border ratio 0 = 0 := by simp [border]
    rw [List.flatMap_map, List.flatMap_congr fun i hi => (hsample i (List.mem_range.mp hi)).2.2,
      flatMap_blocks hmono, hzero, Nat.sub_zero, List.range_eq_range']
    rfl
  · exact border_le hpos (Nat.le_refl _)
  · exact length_lt hpos

/--
**The downsampler tiles its input.** For every input and all positive rates, every place read is
within the input, and every output is within the range of 16 bits before the `Int16Array` takes it.
Where the input rate is at least the target rate, the outputs average blocks that tile the first
`⌊outLength * ratio⌋` places.
-/
theorem downsample_tiles (input : List Rat) (inputRate targetRate : Rat) (hinput : 0 < inputRate)
    (htarget : 0 < targetRate) :
    (∀ s ∈ downsampleSamples input inputRate targetRate, (∀ j ∈ s.reads, j < input.length) ∧
      ∃ v, s.value = some v ∧ -32768 ≤ v ∧ v ≤ 32767) ∧
    (targetRate ≤ inputRate →
      Tiled input (inputRate / targetRate) (downsampleSamples input inputRate targetRate)) := by
  refine ⟨fun s hs => ?_, fun hrates => tiled ((one_le_div htarget).mpr hrates)⟩
  obtain ⟨i, hi, rfl⟩ := List.mem_map.mp hs
  obtain ⟨-, -, hreads, -, hvalue⟩ :=
    downsampleSample_eq (div_pos hinput htarget) (List.mem_range.mp hi)
  exact ⟨hreads, hvalue⟩

/-- Three outputs of five samples: the last one is left over. -/
theorem five_samples_tile :
    downsampleToPcm16 [1, 1 / 2, -1, 0, 1] 3 2 = [32767, -8192, 0] ∧
      Tiled [1, 1 / 2, -1, 0, 1] (3 / 2) (downsampleSamples [1, 1 / 2, -1, 0, 1] 3 2) :=
  ⟨by decide +kernel,
    (downsample_tiles [1, 1 / 2, -1, 0, 1] 3 2 (by norm_num) (by norm_num)).2 (by norm_num)⟩

end Livehost
