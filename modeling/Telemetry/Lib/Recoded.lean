import Telemetry.Lib.Regex

/-!
# Scans of a text in another code

The characters of a text are written in another code. A pattern in the other code finds in the new
text what it finds in the old one if its classes are taken back along the code, and what is blotted
out of the one is blotted out of the other.

## Main results

* `Regex.findAll_map`, `Spans.accepted_map` — the matches.
* `Spans.blotScan_map` — what is left.
-/

namespace Telemetry

variable {γ δ : Type*}

namespace Regex

open Spans

/-- A class of the characters whose code is in the class. -/
def Piece.comap (f : γ → δ) (p : Piece δ) : Piece γ := ⟨fun c => p.mem (f c), p.least, p.most⟩

variable {f : γ → δ}

theorem Piece.counts_map (p : Piece δ) (s : List γ) :
    p.counts (s.map f) = (p.comap f).counts s := by
  have hreach : p.reach (s.map f) = (p.comap f).reach s := by
    simp only [reach, comap, List.takeWhile_map, List.length_map]
    rfl
  rw [counts, hreach]
  rfl

theorem matchAt_map (r : List (Piece δ)) (s : List γ) :
    matchAt r (s.map f) = matchAt (r.map (Piece.comap f)) s := by
  induction r generalizing s with
  | nil => rfl
  | cons p r ih => simp only [matchAt, List.map_cons, Piece.counts_map, ← List.map_drop, ih]

/-- **The matches in the other code.** -/
theorem findAll_map (r : List (Piece δ)) (pos skip : ℕ) (s : List γ) :
    findAll r pos skip (s.map f) = findAll (r.map (Piece.comap f)) pos skip s := by
  induction s generalizing pos skip with
  | nil => rfl
  | cons c s ih =>
      cases skip with
      | zero =>
          have hmatch := matchAt_map (f := f) r (c :: s)
          rw [List.map_cons] at hmatch
          rw [List.map_cons, findAll, findAll, hmatch]
          simp only [ih]
      | succ skip => exact ih (pos + 1) skip

end Regex

namespace Spans

open Regex

variable {f : γ → δ}

theorem slice_map (s : List γ) (m : Span) : slice (s.map f) m = (slice s m).map f := by
  rw [slice, slice, ← List.map_drop, ← List.map_take]

/-- The accepted matches in the other code. -/
theorem accepted_map (accept : List δ → Bool) (rs : List (List (Piece δ))) (s : List γ) :
    accepted accept (rs.map matcher) (s.map f) =
      accepted (fun part => accept (part.map f))
        (rs.map fun r => matcher (r.map (Piece.comap f))) s := by
  rw [accepted, accepted, List.flatMap_map, List.flatMap_map]
  refine List.flatMap_congr fun r _ => ?_
  have hrun : (matcher r).run (s.map f) = (matcher (r.map (Piece.comap f))).run s :=
    findAll_map r 0 0 s
  simp only [hrun, slice_map]

theorem widen_map (isSpace : δ → Bool) (s : List γ) (m : Span) :
    widen isSpace (s.map f) m = widen (fun c => isSpace (f c)) s m := by
  rw [widen, widen, ← List.map_take, ← List.map_drop, ← List.map_reverse, List.takeWhile_map,
    List.takeWhile_map, List.length_map, List.length_map]
  rfl

theorem blotFrom_map (sentinel : List γ) (cover : ℕ → Bool) (before : Bool) (i : ℕ) (s : List γ) :
    blotFrom (sentinel.map f) cover before i (s.map f) =
      (blotFrom sentinel cover before i s).map f := by
  induction s generalizing before i with
  | nil => rfl
  | cons c s ih =>
      rw [List.map_cons, blotFrom, blotFrom, ih, ih]
      cases cover i <;> cases before <;> simp

/-- **What is left** in the other code. -/
theorem blotScan_map (isSpace : δ → Bool) (sentinel : List γ) {scan : List δ → List Span}
    {scan' : List γ → List Span} {s : List γ} (h : scan (s.map f) = scan' s) :
    blotScan isSpace (sentinel.map f) scan (s.map f) =
      (blotScan (fun c => isSpace (f c)) sentinel scan' s).map f := by
  have hwiden : (scan (s.map f)).map (widen isSpace (s.map f)) =
      (scan' s).map (widen (fun c => isSpace (f c)) s) := by
    rw [h]
    exact List.map_congr_left fun m _ => widen_map isSpace s m
  rw [blotScan, blotScan, hwiden]
  exact blotFrom_map sentinel _ false 0 s

end Spans
end Telemetry
