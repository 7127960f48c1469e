import Highlight.Proofs.Render.Pen
import Mathlib.Algebra.Ring.Nat

/-!
# How near the palette comes

A terminal of 256 colours has a palette of which the entries from 16 on are the same
everywhere: a cube of six steps for each channel, and behind it a ramp of 24 greys.  For
a colour that is no grey the entry that stands for it is a nearest one of the cube; the
ramp is never looked at.  For a grey it is one of the ramp, and that is mostly the one
below it, even where the grey itself is in the ramp.

So the entry is not always the nearest.  `Color.palette_nearest_iff` says for which
colours it is.
-/

namespace Highlight.Color

/-! ## The palette -/

/-- The channel at a step of the cube. -/
def cubeChannel : (step : Nat) → Nat
  | 0 => 0
  | step + 1 => 95 + 40 * step

/-- The channel at a step of the ramp. -/
def rampChannel (step : Nat) : Nat :=
  8 + 10 * step

/-- The red, green and blue of an entry from 16 on. -/
def entryChannels (entry : Nat) : Nat × Nat × Nat :=
  if entry < 232 then
    (cubeChannel ((entry - 16) / 36), cubeChannel ((entry - 16) / 6 % 6),
      cubeChannel ((entry - 16) % 6))
  else (rampChannel (entry - 232), rampChannel (entry - 232), rampChannel (entry - 232))

/-- How far two channels are apart. -/
def gap (left right : Nat) : Nat :=
  (left - right) + (right - left)

/-- The squared distance of a colour from three channels. -/
def squaredDistance (color : Color) (channels : Nat × Nat × Nat) : Nat :=
  gap color.red.toNat channels.1 ^ 2 + gap color.green.toNat channels.2.1 ^ 2 +
    gap color.blue.toNat channels.2.2 ^ 2

/-- The squared distance of a colour from an entry. -/
def distance (color : Color) (entry : Nat) : Nat :=
  color.squaredDistance (entryChannels entry)

/-- No entry that is the same everywhere is strictly closer. -/
def Nearest (color : Color) (entry : Nat) : Prop :=
  ∀ other, 16 ≤ other → other ≤ 255 → color.distance entry ≤ color.distance other

/-- All channels are the same. -/
def IsGrey (color : Color) : Prop :=
  color.red = color.green ∧ color.green = color.blue

instance (color : Color) : Decidable color.IsGrey :=
  inferInstanceAs (Decidable (_ ∧ _))

theorem palette_of_isGrey {color : Color} (grey : color.IsGrey) :
    color.palette = greyEntry color.red.toNat :=
  if_pos grey

theorem palette_of_not_isGrey {color : Color} (notGrey : ¬ color.IsGrey) :
    color.palette =
      16 + 36 * cubeLevel color.red.toNat + 6 * cubeLevel color.green.toNat
        + cubeLevel color.blue.toNat :=
  if_neg notGrey

theorem squaredDistance_mono {color : Color} {near far : Nat × Nat × Nat}
    (red : gap color.red.toNat near.1 ≤ gap color.red.toNat far.1)
    (green : gap color.green.toNat near.2.1 ≤ gap color.green.toNat far.2.1)
    (blue : gap color.blue.toNat near.2.2 ≤ gap color.blue.toNat far.2.2) :
    color.squaredDistance near ≤ color.squaredDistance far := by
  apply Nat.add_le_add
  · apply Nat.add_le_add
    · exact Nat.pow_le_pow_left red 2
    · exact Nat.pow_le_pow_left green 2
  · exact Nat.pow_le_pow_left blue 2

/-! ## The cube -/

theorem cubeLevel_lt {value : Nat} (byte : value < 256) : cubeLevel value < 6 := by
  unfold cubeLevel
  split
  · omega
  split
  · omega
  · omega

theorem cubeChannel_of_pos {step : Nat} (positive : 0 < step) :
    cubeChannel step = 55 + 40 * step := by
  cases step with
  | zero => cases positive
  | succ step =>
      rw [cubeChannel]
      omega

/-- The step for a channel is a nearest one. -/
theorem gap_cubeLevel_le {value step : Nat} (byte : value < 256) (inCube : step < 6) :
    gap value (cubeChannel (cubeLevel value)) ≤ gap value (cubeChannel step) := by
  have levelCases : (value ≤ 47 ∧ cubeChannel (cubeLevel value) = 0) ∨
      (48 ≤ value ∧ value ≤ 114 ∧ cubeChannel (cubeLevel value) = 95) ∨
      (115 ≤ value ∧ cubeChannel (cubeLevel value) = 55 + 40 * ((value - 35) / 40)) := by
    unfold cubeLevel
    split
    · rename_i dark
      exact Or.inl ⟨dark, rfl⟩
    split
    · rename_i notDark middle
      exact Or.inr (Or.inl ⟨Nat.lt_of_not_le notDark, middle, rfl⟩)
    · rename_i light
      have positive : 0 < (value - 35) / 40 := by omega
      exact Or.inr (Or.inr ⟨Nat.lt_of_not_le light, cubeChannel_of_pos positive⟩)
  have stepCases : cubeChannel step = 0 ∨ cubeChannel step = 55 + 40 * step ∧ 0 < step := by
    cases step with
    | zero => exact Or.inl rfl
    | succ step => exact Or.inr ⟨cubeChannel_of_pos step.succ_pos, step.succ_pos⟩
  unfold gap
  omega

theorem entryChannels_cube {red green blue : Nat} (redLt : red < 6) (greenLt : green < 6)
    (blueLt : blue < 6) :
    entryChannels (16 + 36 * red + 6 * green + blue) =
      (cubeChannel red, cubeChannel green, cubeChannel blue) := by
  have inCube : 16 + 36 * red + 6 * green + blue < 232 := by omega
  have redEq : (16 + 36 * red + 6 * green + blue - 16) / 36 = red := by omega
  have greenEq : (16 + 36 * red + 6 * green + blue - 16) / 6 % 6 = green := by omega
  have blueEq : (16 + 36 * red + 6 * green + blue - 16) % 6 = blue := by omega
  rw [entryChannels, if_pos inCube, redEq, greenEq, blueEq]

theorem entryChannels_ramp (step : Nat) :
    entryChannels (232 + step) = (rampChannel step, rampChannel step, rampChannel step) := by
  rw [entryChannels, if_neg (Nat.not_lt.mpr (Nat.le_add_right 232 step)),
    Nat.add_sub_cancel_left]

/-- A colour that is no grey is shown as a nearest entry of the cube. -/
theorem distance_palette_le {color : Color} (notGrey : ¬ color.IsGrey) {entry : Nat}
    (inCube : entry < 232) : color.distance color.palette ≤ color.distance entry := by
  have redByte := color.red.toNat_lt
  have greenByte := color.green.toNat_lt
  have blueByte := color.blue.toNat_lt
  rw [distance, distance, palette_of_not_isGrey notGrey,
    entryChannels_cube (cubeLevel_lt redByte) (cubeLevel_lt greenByte) (cubeLevel_lt blueByte),
    entryChannels, if_pos inCube]
  apply squaredDistance_mono
  · apply gap_cubeLevel_le redByte
    omega
  · apply gap_cubeLevel_le greenByte
    omega
  · apply gap_cubeLevel_le blueByte
    omega

/-! ## Greys -/

/-- The channel of the entry that stands for a grey. -/
def shownGrey (value : Nat) : Nat :=
  if value ≤ 7 then 0
  else if 249 ≤ value then 255
  else rampChannel ((value - 9) / 10)

/-- A grey is shown as black, as white, or as the grey of the ramp below it. -/
theorem greyEntry_eq {value : Nat} (byte : value < 256) :
    16 ≤ greyEntry value ∧ greyEntry value ≤ 255 ∧
      entryChannels (greyEntry value) =
        (shownGrey value, shownGrey value, shownGrey value) := by
  unfold greyEntry shownGrey
  split
  · exact ⟨Nat.le_refl 16, by omega, rfl⟩
  split
  · exact ⟨by omega, by omega, rfl⟩
  · -- Cutting off the fraction of 24/241 gives the step strictly below the grey.
    have stepEq : (value - 8) * 24 / 241 = (value - 9) / 10 := by omega
    rw [stepEq, entryChannels_ramp]
    exact ⟨by omega, by omega, rfl⟩

/-- The greys that are nearer to another entry than to the one that stands for them: those
more than halfway up to the next grey of the ramp, and those next to a grey of the cube. -/
def IsMissed (value : Nat) : Prop :=
  (14 ≤ value ∧ value ≤ 238 ∧ 4 ≤ value % 10 ∧ value % 10 ≤ 8) ∨
    value ∈ [5, 6, 7, 92, 93, 132, 133, 172, 173, 212, 213, 247, 248]

instance (value : Nat) : Decidable (IsMissed value) :=
  inferInstanceAs (Decidable (_ ∨ _))

/-- The channels of the greys in the palette. -/
def greyChannels : List Nat :=
  (List.range 6).map cubeChannel ++ (List.range 24).map rampChannel

theorem not_isMissed_iff : ∀ value < 256,
    ¬ IsMissed value ↔
      ∀ channel ∈ greyChannels, gap value (shownGrey value) ≤ gap value channel := by
  decide +kernel

theorem cubeChannel_mem_greyChannels {step : Nat} (inCube : step < 6) :
    cubeChannel step ∈ greyChannels :=
  List.mem_append_left _ (List.mem_map_of_mem (List.mem_range.mpr inCube))

theorem rampChannel_mem_greyChannels {step : Nat} (inRamp : step < 24) :
    rampChannel step ∈ greyChannels :=
  List.mem_append_right _ (List.mem_map_of_mem (List.mem_range.mpr inRamp))

/-- Each channel of an entry is that of a grey in the palette. -/
theorem entryChannels_mem_greyChannels {entry : Nat} (le : entry ≤ 255) :
    (entryChannels entry).1 ∈ greyChannels ∧ (entryChannels entry).2.1 ∈ greyChannels ∧
      (entryChannels entry).2.2 ∈ greyChannels := by
  unfold entryChannels
  split
  · refine ⟨cubeChannel_mem_greyChannels ?_, cubeChannel_mem_greyChannels ?_,
      cubeChannel_mem_greyChannels ?_⟩
    · omega
    · omega
    · omega
  · have inRamp : rampChannel (entry - 232) ∈ greyChannels := by
      apply rampChannel_mem_greyChannels
      omega
    exact ⟨inRamp, inRamp, inRamp⟩

theorem exists_entry_of_mem_greyChannels {channel : Nat} (member : channel ∈ greyChannels) :
    ∃ entry, 16 ≤ entry ∧ entry ≤ 255 ∧ entryChannels entry = (channel, channel, channel) := by
  rcases List.mem_append.mp member with inCube | inRamp
  · rcases List.mem_map.mp inCube with ⟨step, stepMember, rfl⟩
    have stepLt := List.mem_range.mp stepMember
    refine ⟨16 + 36 * step + 6 * step + step, ?_, ?_, entryChannels_cube stepLt stepLt stepLt⟩
    · omega
    · omega
  · rcases List.mem_map.mp inRamp with ⟨step, stepMember, rfl⟩
    have stepLt := List.mem_range.mp stepMember
    refine ⟨232 + step, ?_, ?_, entryChannels_ramp step⟩
    · omega
    · omega

theorem squaredDistance_of_isGrey {color : Color} (grey : color.IsGrey) (channel : Nat) :
    color.squaredDistance (channel, channel, channel) = 3 * gap color.red.toNat channel ^ 2 := by
  rcases grey with ⟨redEq, greenEq⟩
  simp only [squaredDistance, ← greenEq, ← redEq]
  omega

/-- A grey is shown as a nearest entry unless it is one of those that are missed. -/
theorem nearest_palette_iff_of_isGrey {color : Color} (grey : color.IsGrey) :
    color.Nearest color.palette ↔ ¬ IsMissed color.red.toNat := by
  have byte := color.red.toNat_lt
  rcases greyEntry_eq byte with ⟨_, _, shown⟩
  rw [not_isMissed_iff _ byte, Nearest, palette_of_isGrey grey, distance, shown]
  constructor
  · intro nearest channel member
    rcases exists_entry_of_mem_greyChannels member with ⟨entry, ge, le, channels⟩
    have closest := nearest entry ge le
    rw [distance, channels, squaredDistance_of_isGrey grey,
      squaredDistance_of_isGrey grey] at closest
    apply Nat.le_of_not_lt
    intro closer
    have square := Nat.pow_lt_pow_left closer (by decide : 2 ≠ 0)
    omega
  · intro closest other _ le
    rcases entryChannels_mem_greyChannels le with ⟨red, green, blue⟩
    rcases grey with ⟨redEq, greenEq⟩
    apply squaredDistance_mono
    · exact closest _ red
    · rw [← redEq]
      exact closest _ green
    · rw [← greenEq, ← redEq]
      exact closest _ blue

/-- The grey that is shown is at most ten steps away. -/
theorem distance_palette_le_of_isGrey {color : Color} (grey : color.IsGrey) :
    color.distance color.palette ≤ 300 := by
  have byte := color.red.toNat_lt
  rcases greyEntry_eq byte with ⟨_, _, shown⟩
  have near : gap color.red.toNat (shownGrey color.red.toNat) ≤ 10 := by
    unfold gap shownGrey rampChannel
    split
    · omega
    split
    · omega
    · omega
  have square := Nat.pow_le_pow_left near 2
  rw [palette_of_isGrey grey, distance, shown, squaredDistance_of_isGrey grey]
  omega

/-! ## All other colours -/

theorem palette_bounds (color : Color) : 16 ≤ color.palette ∧ color.palette ≤ 255 := by
  by_cases grey : color.IsGrey
  · rcases greyEntry_eq color.red.toNat_lt with ⟨ge, le, _⟩
    rw [palette_of_isGrey grey]
    exact ⟨ge, le⟩
  · have redLt := cubeLevel_lt color.red.toNat_lt
    have greenLt := cubeLevel_lt color.green.toNat_lt
    have blueLt := cubeLevel_lt color.blue.toNat_lt
    rw [palette_of_not_isGrey grey]
    constructor
    · omega
    · omega

theorem palette_lt_of_not_isGrey {color : Color} (notGrey : ¬ color.IsGrey) :
    color.palette < 232 := by
  have redLt := cubeLevel_lt color.red.toNat_lt
  have greenLt := cubeLevel_lt color.green.toNat_lt
  have blueLt := cubeLevel_lt color.blue.toNat_lt
  rw [palette_of_not_isGrey notGrey]
  omega

/-- Any other colour is shown as a nearest entry unless one of the ramp is nearer than the
whole cube. -/
theorem nearest_palette_iff_of_not_isGrey {color : Color} (notGrey : ¬ color.IsGrey) :
    color.Nearest color.palette ↔
      ∀ ramp, 232 ≤ ramp → ramp ≤ 255 →
        ∃ cube, 16 ≤ cube ∧ cube < 232 ∧ color.distance cube ≤ color.distance ramp := by
  rcases color.palette_bounds with ⟨ge, _⟩
  constructor
  · intro nearest ramp rampGe rampLe
    refine ⟨color.palette, ge, palette_lt_of_not_isGrey notGrey, nearest ramp ?_ rampLe⟩
    omega
  · intro matched other otherGe otherLe
    by_cases inCube : other < 232
    · exact distance_palette_le notGrey inCube
    · rcases matched other (Nat.le_of_not_lt inCube) otherLe with ⟨cube, _, cubeLt, closer⟩
      exact Nat.le_trans (distance_palette_le notGrey cubeLt) closer

/-! ## Machine arithmetic

The entry is computed in bytes, and for greys partly in words of two bytes.  Here every
intermediate result has to fit, and every difference has to be one. -/

/-- A number that fits into a given number of bits. -/
def fit? (bits value : Nat) : Option Nat :=
  if value < 2 ^ bits then some value else none

/-- A difference, unless it falls below zero. -/
def difference? (left right : Nat) : Option Nat :=
  if right ≤ left then some (left - right) else none

/-- The step of the cube for one channel, in bytes. -/
def cubeLevel? (value : Nat) : Option Nat :=
  if value ≤ 47 then some 0
  else if value ≤ 114 then some 1
  else (difference? value 35).map (· / 40)

/-- The entry for a grey.  Its step is computed in a word, of which a byte is left. -/
def greyStep? (value : Nat) : Option Nat :=
  if value ≤ 7 then some 16
  else if 249 ≤ value then some 231
  else do
    let above ← (difference? value 8).bind (fit? 16)
    let scaled ← fit? 16 (above * 24)
    let step ← fit? 8 (scaled / 241)
    fit? 8 (232 + step)

/-- The entry for any other colour, in bytes. -/
def cubeStep? (red green blue : Nat) : Option Nat := do
  let redStep ← cubeLevel? red
  let redPart ← fit? 8 (36 * redStep)
  let front ← fit? 8 (16 + redPart)
  let greenStep ← cubeLevel? green
  let greenPart ← fit? 8 (6 * greenStep)
  let middle ← fit? 8 (front + greenPart)
  let blueStep ← cubeLevel? blue
  fit? 8 (middle + blueStep)

/-- The entry for a colour in machine arithmetic. -/
def palette? (color : Color) : Option Nat :=
  if color.IsGrey then greyStep? color.red.toNat
  else cubeStep? color.red.toNat color.green.toNat color.blue.toNat

theorem fit?_of_lt {bits value : Nat} (fits : value < 2 ^ bits) : fit? bits value = some value :=
  if_pos fits

theorem difference?_of_le {left right : Nat} (le : right ≤ left) :
    difference? left right = some (left - right) :=
  if_pos le

theorem cubeLevel?_eq (value : Nat) : cubeLevel? value = some (cubeLevel value) := by
  unfold cubeLevel? cubeLevel
  split
  · rfl
  split
  · rfl
  · rw [difference?_of_le (by omega), Option.map_some]

theorem greyStep?_eq {value : Nat} (byte : value < 256) :
    greyStep? value = some (greyEntry value) := by
  unfold greyStep? greyEntry
  split
  · rfl
  split
  · rfl
  · have above : value - 8 < 2 ^ 16 := by omega
    have scaled : (value - 8) * 24 < 2 ^ 16 := by omega
    have step : (value - 8) * 24 / 241 < 2 ^ 8 := by omega
    have entry : 232 + (value - 8) * 24 / 241 < 2 ^ 8 := by omega
    rw [difference?_of_le (by omega), Option.bind_some, fit?_of_lt above]
    simp only [Option.bind_eq_bind, Option.bind_some, fit?_of_lt scaled, fit?_of_lt step,
      fit?_of_lt entry]

theorem cubeStep?_eq {red green blue : Nat} (redByte : red < 256) (greenByte : green < 256)
    (blueByte : blue < 256) :
    cubeStep? red green blue =
      some (16 + 36 * cubeLevel red + 6 * cubeLevel green + cubeLevel blue) := by
  have redLt := cubeLevel_lt redByte
  have greenLt := cubeLevel_lt greenByte
  have blueLt := cubeLevel_lt blueByte
  have redPart : 36 * cubeLevel red < 2 ^ 8 := by omega
  have front : 16 + 36 * cubeLevel red < 2 ^ 8 := by omega
  have greenPart : 6 * cubeLevel green < 2 ^ 8 := by omega
  have middle : 16 + 36 * cubeLevel red + 6 * cubeLevel green < 2 ^ 8 := by omega
  have entry : 16 + 36 * cubeLevel red + 6 * cubeLevel green + cubeLevel blue < 2 ^ 8 := by omega
  simp only [cubeStep?, cubeLevel?_eq, Option.bind_eq_bind, Option.bind_some,
    fit?_of_lt redPart, fit?_of_lt front, fit?_of_lt greenPart, fit?_of_lt middle,
    fit?_of_lt entry]

/-- No result overflows and no difference falls below zero. -/
theorem palette?_eq (color : Color) : color.palette? = some color.palette := by
  by_cases grey : color.IsGrey
  · rw [palette?, if_pos grey, palette_of_isGrey grey, greyStep?_eq color.red.toNat_lt]
  · rw [palette?, if_neg grey, palette_of_not_isGrey grey,
      cubeStep?_eq color.red.toNat_lt color.green.toNat_lt color.blue.toNat_lt]

/-! ## The palette in use -/

/-- The entry that stands for a colour is one of those that are the same everywhere, and no
machine arithmetic goes wrong on the way to it.  Which colours get the nearest of these
entries is said in full: of the greys, all but those that `IsMissed` lists, and these are
at most ten steps off; of the others, those to which no grey of the ramp is nearer than
the whole cube, and their entry is always a nearest one of the cube.  A terminal without
full colours draws with these entries for every style. -/
theorem palette_nearest_iff (color : Color) :
    16 ≤ color.palette ∧ color.palette ≤ 255 ∧ color.palette? = some color.palette ∧
      (color.Nearest color.palette ↔
        if color.IsGrey then ¬ IsMissed color.red.toNat
        else ∀ ramp, 232 ≤ ramp → ramp ≤ 255 →
          ∃ cube, 16 ≤ cube ∧ cube < 232 ∧ color.distance cube ≤ color.distance ramp) ∧
      (color.IsGrey → color.distance color.palette ≤ 300) ∧
      (¬ color.IsGrey → ∀ cube, 16 ≤ cube → cube < 232 →
        color.distance color.palette ≤ color.distance cube) ∧
      ∀ (style : Style) (page : Option Color), ∃ pen,
        Pen.ofSequence? ((⟨false⟩ : Ansi).switch style page) = some pen ∧
          pen.foreground = some (.entry style.foreground.palette) ∧
          pen.background = (style.ownBackground page).map fun own => .entry own.palette := by
  rcases color.palette_bounds with ⟨ge, le⟩
  refine ⟨ge, le, color.palette?_eq, ?_, distance_palette_le_of_isGrey, ?_, ?_⟩
  · split
    · rename_i grey
      exact nearest_palette_iff_of_isGrey grey
    · rename_i notGrey
      exact nearest_palette_iff_of_not_isGrey notGrey
  · intro notGrey cube _ inCube
    exact distance_palette_le notGrey inCube
  · intro style page
    exact ⟨_, Ansi.ofSequence?_switch _ style page, rfl, rfl⟩

/-- A blue that is far from the ramp, and a grey that is less than halfway up to the next
one. -/
theorem palette_nearest_iff_blue :
    let blue : Color := ⟨32, 96, 240⟩
    let grey : Color := ⟨232, 232, 232⟩
    ¬ blue.IsGrey ∧ blue.palette = 27 ∧ blue.Nearest 27 ∧
      grey.IsGrey ∧ grey.palette = 254 ∧ grey.Nearest 254 := by
  intro blue grey
  have notGrey : ¬ blue.IsGrey := by decide
  have isGrey : grey.IsGrey := by decide
  have blueEntry : blue.palette = 27 := by decide
  have greyEntry : grey.palette = 254 := by decide
  have matched : ∀ step < 24, blue.distance 27 ≤ blue.distance (232 + step) := by decide
  rcases palette_nearest_iff blue with ⟨_, _, _, blueIff, _⟩
  rcases palette_nearest_iff grey with ⟨_, _, _, greyIff, _⟩
  rw [if_neg notGrey, blueEntry] at blueIff
  rw [if_pos isGrey, greyEntry] at greyIff
  refine ⟨notGrey, blueEntry, blueIff.mpr ?_, isGrey, greyEntry, greyIff.mpr (by decide)⟩
  intro ramp ge le
  refine ⟨27, by decide, by decide, ?_⟩
  have closer := matched (ramp - 232) (by omega)
  rwa [Nat.add_sub_cancel' ge] at closer

/-- A grey that is in the ramp itself is shown as the grey below it, and a colour next to a
grey of the ramp is shown as one of the cube that is far away. -/
theorem not_nearest_palette :
    let grey : Color := ⟨18, 18, 18⟩
    let nearGrey : Color := ⟨47, 48, 48⟩
    (¬ grey.Nearest grey.palette ∧ grey.distance grey.palette = 300 ∧ grey.distance 233 = 0) ∧
      (¬ nearGrey.Nearest nearGrey.palette ∧ nearGrey.distance nearGrey.palette = 6627 ∧
        nearGrey.distance 236 = 1) := by
  intro grey nearGrey
  refine ⟨⟨?_, by decide, by decide⟩, ?_, by decide, by decide⟩
  · intro nearest
    exact absurd (nearest 233 (by decide) (by decide)) (by decide)
  · intro nearest
    exact absurd (nearest 236 (by decide) (by decide)) (by decide)

end Highlight.Color
