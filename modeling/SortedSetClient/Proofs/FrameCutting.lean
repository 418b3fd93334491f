import SortedSetClient.Proofs.ScannerResumption

/-! A stream cut into its replies. Scanning it as it arrives, each scan from where the last one
stopped, cuts it in the same places as scanning all of it at once. -/
namespace SortedSetClient.Resp

namespace Scanner

/-- The scanner behind scans of growing buffers, each of which found the reply still open. -/
def resume (scanner : Scanner) : List Bytes → Option Scanner
  | [] => some scanner
  | buffer :: buffers =>
    match scanner.scan buffer with
    | (scanner, .ok none) => scanner.resume buffers
    | _ => none

theorem Resumes.resume {scanner next : Scanner} {seen buffer : Bytes} {buffers : List Bytes}
    (h : scanner.Resumes seen) (hc : (seen :: (buffers ++ [buffer])).Pairwise (· <+: ·))
    (hr : scanner.resume buffers = some next) :
    next.scan buffer = ({} : Scanner).scan buffer := by
  induction buffers generalizing scanner seen with
  | nil =>
    cases hr
    exact h.scan_eq ((List.pairwise_cons.mp hc).1 buffer (by simp))
  | cons first buffers ih =>
    obtain ⟨hp, hc⟩ := List.pairwise_cons.mp hc
    match hs : scanner.scan first with
    | (after, .ok none) =>
      rw [Scanner.resume, hs] at hr
      exact ih (h.scan_open (hp first (by simp)) hs) hc hr
    | (after, .ok (some _)) => rw [Scanner.resume, hs] at hr; cases hr
    | (after, .error _) => rw [Scanner.resume, hs] at hr; cases hr

/-- A found reply is found again without what comes after it. -/
theorem scan_take {buffer : Bytes} {next : Scanner} {n : Nat}
    (h : ({} : Scanner).scan buffer = (next, .ok (some n))) :
    ({} : Scanner).scan (buffer.take n) = (next, .ok (some n)) := by
  have hb : buffer.take n ++ buffer.drop n = buffer := List.take_append_drop n buffer
  by_cases ho : (({} : Scanner).scan (buffer.take n)).2 = .ok none
  · have hm : (({} : Scanner).scan (buffer.take n ++ buffer.drop n)).2 = .ok (some n) := by
      rw [hb, h]
    have hlt := lt_of_scan ho hm
    rw [List.length_take_of_le (scan_found h).2.2] at hlt
    exact absurd hlt (Nat.lt_irrefl n)
  · rw [← scan_append ho (buffer.drop n), hb, h]

end Scanner

/-- A stream cut into replies as far as it has arrived. -/
structure Cutting where
  /-- The replies found, in order. -/
  frames : List Bytes := []
  /-- How far the rest has been scanned. -/
  scanner : Scanner := {}
  /-- The octets behind the last reply. -/
  left : Bytes := []
  /-- Why cutting stopped, unless for want of octets. -/
  fault : Option Fault := none

namespace Cutting

/-- Cut replies from the front of a buffer, behind those already cut, as long as there are any. -/
def cut (frames : List Bytes) (scanner : Scanner) (buffer : Bytes) : Cutting :=
  match _ : scanner.scan buffer with
  | (scanner, .error fault) => { frames, scanner, left := buffer, fault := some fault }
  | (scanner, .ok none) => { frames, scanner, left := buffer }
  | (scanner, .ok (some n)) => cut (frames ++ [buffer.take n]) scanner (buffer.drop n)
termination_by buffer.length
decreasing_by
  have := Scanner.scan_found ‹_›
  rw [List.length_drop]
  omega

/-- Go on with a chunk, from where the last scan stopped; nothing is cut behind a fault. -/
def append (cutting : Cutting) (chunk : Bytes) : Cutting :=
  match cutting.fault with
  | some _ => { cutting with left := cutting.left ++ chunk }
  | none => cut cutting.frames cutting.scanner (cutting.left ++ chunk)

section Cuts
variable {scanner next : Scanner} {buffer : Bytes} (frames : List Bytes)

theorem cut_error {fault : Fault} (h : scanner.scan buffer = (next, .error fault)) :
    cut frames scanner buffer =
      { frames, scanner := next, left := buffer, fault := some fault } := by
  rw [cut]
  split <;> simp_all

theorem cut_open (h : scanner.scan buffer = (next, .ok none)) :
    cut frames scanner buffer = { frames, scanner := next, left := buffer } := by
  rw [cut]
  split <;> simp_all

theorem cut_found {n : Nat} (h : scanner.scan buffer = (next, .ok (some n))) :
    cut frames scanner buffer = cut (frames ++ [buffer.take n]) next (buffer.drop n) := by
  rw [cut]
  split <;> simp_all

theorem cut_congr (h : scanner.scan buffer = next.scan buffer) :
    cut frames scanner buffer = cut frames next buffer := by
  match hs : next.scan buffer with
  | (_, .error _) => rw [cut_error frames hs, cut_error frames (h.trans hs)]
  | (_, .ok none) => rw [cut_open frames hs, cut_open frames (h.trans hs)]
  | (_, .ok (some _)) => rw [cut_found frames hs, cut_found frames (h.trans hs)]

end Cuts

/-- A buffer that is cut and then goes on is cut like the longer one. -/
theorem append_cut (frames : List Bytes) (buffer chunk : Bytes) :
    (cut frames {} buffer).append chunk = cut frames {} (buffer ++ chunk) := by
  induction hl : buffer.length using Nat.strongRecOn generalizing frames buffer with
  | _ length ih =>
    match hs : ({} : Scanner).scan buffer with
    | (next, .error fault) =>
      have hm := (Scanner.scan_append (by simp [hs]) chunk).trans hs
      rw [cut_error frames hs, cut_error frames hm]
      rfl
    | (next, .ok none) =>
      rw [cut_open frames hs]
      -- The scanner left behind sums up the buffer, so the longer scan may start from it.
      have hr := (Scanner.resumes_fresh buffer).scan_open (List.prefix_refl _) hs
      exact cut_congr frames (hr chunk)
    | (next, .ok (some n)) =>
      obtain ⟨rfl, hpos, hle⟩ := Scanner.scan_found hs
      have hm := (Scanner.scan_append (by simp [hs]) chunk).trans hs
      rw [cut_found frames hs, cut_found frames hm, List.take_append_of_le_length hle,
        List.drop_append_of_le_length hle]
      exact ih _ (by rw [List.length_drop]; omega) _ _ rfl

theorem foldl_append (chunks : List Bytes) (buffer : Bytes) :
    chunks.foldl append (cut [] {} buffer) = cut [] {} (buffer ++ chunks.flatten) := by
  induction chunks generalizing buffer with
  | nil => simp
  | cons chunk chunks ih =>
    rw [List.foldl_cons, append_cut, ih, List.flatten_cons, List.append_assoc]

/-- The replies are those that a fresh scanner finds one after another in the stream, and the
scanner is at work on the rest. -/
structure Cuts (cutting : Cutting) (stream : Bytes) : Prop where
  whole : cutting.frames.flatten ++ cutting.left = stream
  found : ∀ frame ∈ cutting.frames, ({} : Scanner).scan frame = ({}, .ok (some frame.length))
  rest : ({} : Scanner).scan cutting.left =
    (cutting.scanner, cutting.fault.elim (.ok none) .error)

theorem cuts_cut {frames : List Bytes} (buffer : Bytes)
    (hf : ∀ frame ∈ frames, ({} : Scanner).scan frame = ({}, .ok (some frame.length))) :
    (cut frames {} buffer).Cuts (frames.flatten ++ buffer) := by
  induction hl : buffer.length using Nat.strongRecOn generalizing frames buffer with
  | _ length ih =>
    match hs : ({} : Scanner).scan buffer with
    | (next, .error fault) =>
      rw [cut_error frames hs]
      exact ⟨rfl, hf, hs⟩
    | (next, .ok none) =>
      rw [cut_open frames hs]
      exact ⟨rfl, hf, hs⟩
    | (next, .ok (some n)) =>
      obtain ⟨rfl, hpos, hle⟩ := Scanner.scan_found hs
      have hf' : ∀ frame ∈ frames ++ [buffer.take n],
          ({} : Scanner).scan frame = ({}, .ok (some frame.length)) := by
        intro frame hmem
        rcases List.mem_append.mp hmem with hmem | hmem
        · exact hf frame hmem
        · rw [List.mem_singleton.mp hmem, Scanner.scan_take hs, List.length_take_of_le hle]
      have := ih _ (by rw [List.length_drop]; omega) (buffer.drop n) hf' rfl
      rw [cut_found frames hs]
      simpa using this

/-- A scan that goes on answers what a fresh one would, and leaves the same scanner; a scanner that
has found a reply is fresh; so a stream is cut into the same replies in whatever chunks it comes. -/
theorem resumed_scan_eq_fresh :
    (∀ earlier buffer scanner, (earlier ++ [buffer]).Pairwise (· <+: ·) →
      ({} : Scanner).resume earlier = some scanner →
      scanner.scan buffer = ({} : Scanner).scan buffer) ∧
    (∀ scanner next : Scanner, ∀ buffer n, scanner.scan buffer = (next, .ok (some n)) →
      next = {}) ∧
    ∀ chunks : List Bytes,
      chunks.foldl append {} = cut [] {} chunks.flatten ∧
      (chunks.foldl append {}).Cuts chunks.flatten := by
  refine ⟨?_, fun _ _ _ _ h => (Scanner.scan_found h).1, ?_⟩
  · intro earlier buffer scanner hp hr
    have hc : ([] :: (earlier ++ [buffer])).Pairwise (· <+: ·) :=
      List.pairwise_cons.mpr ⟨fun _ _ => List.nil_prefix, hp⟩
    exact (Scanner.resumes_fresh []).resume hc hr
  · intro chunks
    have hfold : chunks.foldl append {} = cut [] {} chunks.flatten := by
      rw [← List.nil_append chunks.flatten, ← foldl_append, cut_open [] Scanner.scan_nil]
    have hcuts : (cut [] {} chunks.flatten).Cuts ([].flatten ++ chunks.flatten) :=
      cuts_cut _ (by simp)
    exact ⟨hfold, hfold ▸ by simpa using hcuts⟩

/-- Cut inside a line end and behind a type octet: the scan goes on inside the array. -/
theorem resumed_scan_inside_array :
    let first : Bytes := [0x2a, 0x31, 0x0d]
    let second : Bytes := [0x2a, 0x31, 0x0d, 0x0a, 0x3a]
    let whole : Bytes := [0x2a, 0x31, 0x0d, 0x0a, 0x3a, 0x37, 0x0d, 0x0a]
    ({} : Scanner).resume [first, second] = some ⟨4, [1]⟩ ∧
    ({} : Scanner).scan whole = ({}, .ok (some 8)) ∧
    (⟨4, [1]⟩ : Scanner).scan whole = ({} : Scanner).scan whole := by
  intro first second whole
  have h1 : ({} : Scanner).scan first = ({}, .ok none) := Scanner.advance_none 0 [] rfl
  have h2 : ({} : Scanner).scan second = (⟨4, [1]⟩, .ok none) :=
    (Scanner.advance_enter 0 (rfl : Element.read second = .ok (some ⟨4, 1, by decide⟩)) (by decide)
      (by decide)).trans (Scanner.advance_none 4 [1] rfl)
  have h3 : ({} : Scanner).scan whole = ({}, .ok (some 8)) :=
    (Scanner.advance_enter 0 (rfl : Element.read whole = .ok (some ⟨4, 1, by decide⟩)) (by decide)
      (by decide)).trans
      ((Scanner.advance_finish 4 [1]
        (rfl : Element.read (whole.drop 4) = .ok (some ⟨4, 0, by decide⟩)) rfl).trans
        (Scanner.settle_last 8 rfl))
  have hr : ({} : Scanner).resume [first, second] = some ⟨4, [1]⟩ := by
    rw [Scanner.resume, h1]
    dsimp only
    rw [Scanner.resume, h2]
    rfl
  exact ⟨hr, h3, resumed_scan_eq_fresh.1 [first, second] whole _ (by decide) hr⟩

end Cutting
end SortedSetClient.Resp
