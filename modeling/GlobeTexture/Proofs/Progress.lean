import GlobeTexture.Proofs.Fractions
import GlobeTexture.Proofs.Reading
import GlobeTexture.Proofs.Transaction
import Mathlib.Algebra.Order.Field.Basic
import Mathlib.Algebra.Order.Field.Rat

/-! # How far work has come

Work on a canvas of `n` tiles says that nothing is done, and after each tile which fraction of the tiles is done. Work
that ends at a read has said so for the tiles before the one that it ends in, and as long as floats tell the numbers of
tiles apart, never that all is done. Where there is no tile all is done at once, and where tiles have no side nothing is
said. -/

namespace GlobeTexture

variable {μ α β γ : Type}

namespace Progress

/-- What is said on the way through `n` tiles until `j` of them are done. -/
def reports (n j : Nat) : List Float :=
  0.0 :: (List.range' 1 j).map fun i => .ofNat i / .ofNat n

/-- The fractions that are meant by it. -/
def ratios (n j : Nat) : List ℚ :=
  (List.range (j + 1)).map fun i : Nat => (i : ℚ) / n

variable {n j : Nat}

theorem ratio_eq_one_iff (hn : 0 < n) : (j : ℚ) / n = 1 ↔ j = n := by
  rw [div_eq_one_iff_eq (Nat.cast_ne_zero.mpr (Nat.ne_of_gt hn)), Nat.cast_inj]

theorem pairwise_ratios (hn : 0 < n) (j : Nat) : (ratios n j).Pairwise (· < ·) := by
  refine List.pairwise_map.mpr (List.pairwise_lt_range.imp fun h => ?_)
  exact div_lt_div_of_pos_right (Nat.cast_lt.mpr h) (Nat.cast_pos.mpr hn)

theorem getLast?_ratios (n j : Nat) : (ratios n j).getLast? = some (j / n : ℚ) := by
  simp [ratios, List.range_succ]

theorem ratio_mem_reports {i : Nat} (h0 : 0 < i) (hi : i ≤ j) : .ofNat i / .ofNat n ∈ reports n j :=
  List.mem_cons_of_mem _ (List.mem_map.mpr ⟨i, List.mem_range'_1.mpr (by omega), rfl⟩)

theorem one_mem_reports_iff (hj : j ≤ n) (h0 : 0 < n) (hn : n ≤ 2 ^ 53) : 1.0 ∈ reports n j ↔ j = n := by
  have hzero : (1.0 : Float) ≠ 0.0 := by decide +kernel
  constructor
  · intro h
    rcases List.mem_cons.mp h with h | h
    · exact absurd h hzero
    · obtain ⟨i, hi, hone⟩ := List.mem_map.mp h
      obtain ⟨hpos, hle⟩ := List.mem_range'_1.mp hi
      have := (ofNat_div_ofNat_eq_one_iff hpos (by omega) hn).mp hone
      omega
  · rintro rfl
    have hmem := ratio_mem_reports (n := j) h0 hj
    rwa [(ofNat_div_ofNat_eq_one_iff h0 hj hn).mpr rfl] at hmem

end Progress

open Progress

/-- What work with tiles of side `s`, of which there are `n`, says about how far it has come. -/
structure Traced.Reports (work : Traced β) (src : Source α) (s n : Nat) (route : Route μ) : Prop where
  empty : n = 0 → (∃ b, work.result = .ok b) ∧ Event.fractions work.events = [0.0, 1.0]
  complete : 0 < n → (∃ b, work.result = .ok b) → Event.fractions work.events = reports n n
  stopped : ∀ f, work.result = .error (.fault f) → ∃ tiles done t before c,
    Tile.plan src.canvas (.square s) = .ok tiles ∧ route.Halted src tiles done t before c (.fault f) ∧
      done.length < n ∧ Event.fractions work.events = reports n done.length
  rising : 0 < n → ∃ j ≤ n, Event.fractions work.events = reports n j ∧ (ratios n j).Pairwise (· < ·) ∧
    ((ratios n j).getLast? = some 1 ↔ ∃ b, work.result = .ok b)
  one : n ≤ 2 ^ 53 → (1.0 ∈ Event.fractions work.events ↔ ∃ b, work.result = .ok b)

/-! ### Passes -/

section Gather
variable {src : Source α} {route : Route μ} {tiles : List Tile}

theorem fractions_gather_of_readable (hne : ∀ t ∈ tiles, t.cells ≠ []) (h : ∀ t ∈ tiles, route.Readable src t) :
    (∃ g, (gather src tiles route).result = .ok g) ∧
      Event.fractions (gather src tiles route).events =
        reports tiles.length tiles.length ++ if tiles.isEmpty then [1.0] else [] := by
  obtain ⟨ms, ws, -, heq⟩ := gather_of_readable hne h
  rw [heq]
  refine ⟨⟨_, rfl⟩, ?_⟩
  rw [Event.fractions_append, Event.fractions_progress_cons, route.fractions_journal]
  split <;> rfl

theorem fractions_gather_of_halted (hne : ∀ t ∈ tiles, t.cells ≠ []) {done : List Tile} {t : Tile}
    {before : List Cell} {c : Cell} {e : Failure} (h : route.Halted src tiles done t before c e) :
    Event.fractions (gather src tiles route).events = reports tiles.length done.length := by
  rw [gather_of_halted hne h, Event.fractions_append, Event.fractions_progress_cons, route.fractions_journal,
    Event.fractions_visits, List.append_nil]
  rfl

theorem gather_reports_of_readable {s : Nat} (hplan : Tile.plan src.canvas (.square s) = .ok tiles)
    (hall : ∀ t ∈ tiles, route.Readable src t) : (gather src tiles route).Reports src s tiles.length route := by
  have hne : ∀ t ∈ tiles, t.cells ≠ [] := fun t ht => Tile.cells_ne_nil_of_mem_plan hplan ht
  obtain ⟨⟨g, hok⟩, hfractions⟩ := fractions_gather_of_readable hne hall
  have hsome (h0 : 0 < tiles.length) :
      Event.fractions (gather src tiles route).events = reports tiles.length tiles.length := by
    rw [hfractions, if_neg (by simpa using List.ne_nil_of_length_pos h0), List.append_nil]
  have hnone (h0 : tiles.length = 0) : Event.fractions (gather src tiles route).events = [0.0, 1.0] := by
    obtain rfl := List.length_eq_zero_iff.mp h0
    exact hfractions
  refine ⟨fun h0 => ⟨⟨g, hok⟩, hnone h0⟩, fun h0 _ => hsome h0, fun f hf => ?_, fun h0 => ?_, fun h53 => ?_⟩
  · rw [hok] at hf
    cases hf
  · refine ⟨_, Nat.le_refl _, hsome h0, pairwise_ratios h0 _, ?_⟩
    rw [getLast?_ratios, Option.some_inj, ratio_eq_one_iff h0]
    exact iff_of_true rfl ⟨g, hok⟩
  · refine iff_of_true ?_ ⟨g, hok⟩
    rcases Nat.eq_zero_or_pos tiles.length with h0 | h0
    · rw [hnone h0]
      exact List.mem_cons_of_mem _ List.mem_cons_self
    · rw [hsome h0]
      exact (one_mem_reports_iff (Nat.le_refl _) h0 h53).mpr rfl

theorem gather_reports_of_halted {s : Nat} (hplan : Tile.plan src.canvas (.square s) = .ok tiles) {done : List Tile}
    {t : Tile} {before : List Cell} {c : Cell} {e : Failure} (h : route.Halted src tiles done t before c e) :
    (gather src tiles route).Reports src s tiles.length route := by
  have hne : ∀ t ∈ tiles, t.cells ≠ [] := fun t ht => Tile.cells_ne_nil_of_mem_plan hplan ht
  have hresult : (gather src tiles route).result = .error e := by rw [gather_of_halted hne h]
  have hfractions := fractions_gather_of_halted hne h
  have hnot : ¬∃ g, (gather src tiles route).result = .ok g := by simp [hresult]
  have hlt : done.length < tiles.length := by
    obtain ⟨rest, htiles⟩ := h.tiles
    simp [htiles]
  refine ⟨fun h0 => by omega, fun _ hok => absurd hok hnot, fun f hf => ?_, fun h0 => ?_, fun h53 => ?_⟩
  · rw [hresult] at hf
    obtain rfl := Except.error.inj hf
    exact ⟨tiles, done, t, before, c, hplan, h, hlt, hfractions⟩
  · refine ⟨done.length, Nat.le_of_lt hlt, hfractions, pairwise_ratios h0 _, ?_⟩
    rw [getLast?_ratios, Option.some_inj, ratio_eq_one_iff h0]
    exact iff_of_false (Nat.ne_of_lt hlt) hnot
  · rw [hfractions, one_mem_reports_iff (Nat.le_of_lt hlt) (by omega) h53]
    exact iff_of_false (Nat.ne_of_lt hlt) hnot

theorem gather_reports {s : Nat} (hplan : Tile.plan src.canvas (.square s) = .ok tiles) (route : Route μ) :
    (gather src tiles route).Reports src s tiles.length route := by
  rcases route.readable_or_halted src tiles with hall | ⟨done, t, before, c, e, h⟩
  · exact gather_reports_of_readable hplan hall
  · exact gather_reports_of_halted hplan h

end Gather

theorem Traced.Reports.map {work : Traced β} {work' : Traced γ} {src : Source α} {s n : Nat} {route : Route μ}
    (h : work.Reports src s n route) (f : β → γ) (hresult : work'.result = work.result.map f)
    (hfractions : Event.fractions work'.events = Event.fractions work.events) : work'.Reports src s n route := by
  have hok : (∃ c, work'.result = .ok c) ↔ ∃ b, work.result = .ok b := by
    rw [hresult]
    cases work.result <;> simp [Except.map]
  have hfault (e : Failure) : work'.result = .error e ↔ work.result = .error e := by
    rw [hresult]
    exact Failure.map_eq_error_iff
  refine ⟨?_, ?_, ?_, ?_, ?_⟩
  · rw [hok, hfractions]
    exact h.empty
  · rw [hok, hfractions]
    exact h.complete
  · simp only [hfault, hfractions]
    exact h.stopped
  · rw [hok, hfractions]
    exact h.rising
  · rw [hok, hfractions]
    exact h.one

/-! ### Drawings -/

section Drawing
variable [Pixel α] {src : Source α} {s : Nat}

namespace Redrawing

variable (m : Redrawing)

theorem fractions_draw_of_zero (hs : s = 0) : Event.fractions (m.draw src s).events = [] := by
  have hplan : Tile.plan src.canvas (.square s) = .error (.fault .zeroTile) := if_pos (Or.inl hs)
  rw [m.draw_of_plan_error hplan]
  rfl

theorem draw_reports (hs : s ≠ 0) (h : (m.draw src s).result ≠ .error .outOfRange) :
    (m.draw src s).Reports src s ((src.canvas.height ⌈/⌉ s) * (src.canvas.width ⌈/⌉ s)) (m.route src.canvas) := by
  obtain ⟨tiles, hplan, hk⟩ := m.storable_of_draw hs h
  have hlength : tiles.length = (src.canvas.height ⌈/⌉ s) * (src.canvas.width ⌈/⌉ s) :=
    (Tile.length_plan hplan).trans (Tile.count_eq_ceilDiv src.canvas (.square s))
  have hgather := gather_reports hplan (m.route src.canvas)
  rw [hlength] at hgather
  refine hgather.map _ (by rw [m.draw_of_plan hplan hk]) ?_
  rw [m.draw_of_plan hplan hk]
  simp

end Redrawing

namespace Operation

variable (op : Operation)

theorem fractions_run (options : Options) :
    Event.fractions (op.run src options).events = Event.fractions (op.redrawing.draw src options.tileSize).events := by
  rw [op.run_eq, Event.fractions_note_cons, op.fractions_conclude, op.draw_eq]

theorem result_run (options : Options) :
    (op.run src options).result = (op.redrawing.draw src options.tileSize).result := by
  rw [op.run_eq, op.draw_eq]

theorem run_reports (hs : s ≠ 0) (h : (op.run src ⟨s⟩).result ≠ .error .outOfRange) :
    (op.run src ⟨s⟩).Reports src s ((src.canvas.height ⌈/⌉ s) * (src.canvas.width ⌈/⌉ s))
      (op.redrawing.route src.canvas) := by
  rw [op.result_run] at h
  refine (op.redrawing.draw_reports hs h).map id ?_ (op.fractions_run ⟨s⟩)
  rw [op.result_run]
  cases (op.redrawing.draw src s).result <;> rfl

end Operation

end Drawing

/-! ### More tiles than floats tell apart -/

/-- How many tiles a pass has done when it ends is told by the cell that it ends at. -/
theorem Route.Halted.length_done {src : Source α} {route : Route μ} {size : TileSize} {tiles done : List Tile} {t : Tile}
    {before : List Cell} {c : Cell} {e : Failure} (hplan : Tile.plan src.canvas size = .ok tiles)
    (h : route.Halted src tiles done t before c e) :
    done.length = (Tile.lattice src.canvas size).offset (Tile.block size c) := by
  obtain ⟨rest, htiles⟩ := h.tiles
  have hplace : tiles[done.length]? = some t := by simp [htiles]
  exact (Tile.mem_getElem?_plan_iff hplan (h.failed_at hplan).1 hplace).mp h.mem.2

theorem Canvas.nearest?_corner {k : Canvas} {c : Cell} (hc : c ∈ k) (hw : k.width ≤ 2 ^ 53 + 1)
    (hh : k.height ≤ 2 ^ 53 + 1) : k.nearest? ⟨.ofNat c.col, .ofNat c.row⟩ = some c := by
  have hindex {i len : Nat} (hi : i < len) (hlen : len ≤ 2 ^ 53 + 1) : nearestIndex? (.ofNat i) len = some i := by
    rw [nearestIndex?_eq (by omega) (Nat.lt_of_le_of_lt hlen (by decide)), Binary64.floor_ofNat (by omega)]
    exact congrArg some (by omega)
  rw [nearest?, hindex hc.1 hw, hindex hc.2 hh]
  rfl

/-- A map that shows nothing of the globe. -/
def Resample.blankMap : Projection where
  square := .signedUnit
  forward _ := ⟨0.0, 0.0⟩
  inverse? _ := none

theorem Redrawing.address?_blankMap (source : Projection) {k : Canvas} (hw : k.width ≤ 2 ^ 53 + 1)
    (hh : k.height ≤ 2 ^ 53 + 1) (s : Nat) {c : Cell} (hc : c ∈ k) :
    (Redrawing.resample source Resample.blankMap).address? k s c = some c := by
  refine (congrFun (Resample.at?_route k (.square s)) c).trans ?_
  rw [Resample.origin?, Resample.position_of_none rfl]
  exact Canvas.nearest?_corner hc hw hh

/-- A column of `n + 1` cells, the last of which cannot be read. -/
def Source.tornColumn (n : Nat) (f : Fault) : Source UInt32 :=
  (Source.numbered ⟨1, n + 1⟩).failing fun c => if c = ⟨0, n⟩ then some f else none

theorem Source.read_tornColumn {n : Nat} {f g : Fault} {c : Cell} :
    (tornColumn n f).read c = .error g ↔ c = ⟨0, n⟩ ∧ g = f :=
  read_numbered_failing_iff

section TornColumn
variable (source : Projection) {n : Nat} (hn : n ≤ 2 ^ 53) (f : Fault)
include hn

theorem storable_column : Canvas.Storable ⟨1, n + 1⟩ (Pixel.bytes UInt32) := by
  have hbytes : Pixel.bytes UInt32 = 4 := rfl
  simp only [Canvas.Storable, Canvas.Addressable, Word.Fits, Canvas.area, hbytes, Word.signedLimit, Nat.max_self,
    Nat.mul_one]
  omega

theorem exists_plan_column : ∃ tiles, Tile.plan ⟨1, n + 1⟩ (.square 1) = .ok tiles := by
  refine Tile.exists_plan (by decide) fun hrange => ?_
  refine (Tile.plan_square_eq_outOfRange_iff (storable_column hn).1 (by decide) (by decide)).mp hrange ?_
  simp only [Tile.count, Span.count, TileSize.square, Word.Fits, Tile.bytes, Word.signedLimit]
  omega

theorem result_draw_tornColumn :
    ((Redrawing.resample source Resample.blankMap).draw (Source.tornColumn n f) 1).result = .error (.fault f) := by
  obtain ⟨tiles, hplan⟩ := exists_plan_column hn
  have hdraws : Draws ((Redrawing.resample source Resample.blankMap).draw (Source.tornColumn n f) 1).result _ _ :=
    Redrawing.draw_draws _ hplan (storable_column hn)
  have hlast : (⟨0, n⟩ : Cell) ∈ (⟨1, n + 1⟩ : Canvas) := ⟨Nat.one_pos, Nat.lt_succ_self n⟩
  have haddress := Redrawing.address?_blankMap source (Nat.le_add_left 1 _) (Nat.succ_le_succ hn) 1 hlast
  exact hdraws.eq_fault (fun d g hd => (Source.read_tornColumn.mp hd).2) hlast haddress
    (Source.read_tornColumn.mpr ⟨rfl, rfl⟩)

/-- All tiles but the last one are done. -/
theorem fractions_draw_tornColumn :
    Event.fractions ((Redrawing.resample source Resample.blankMap).draw (Source.tornColumn n f) 1).events =
      reports (n + 1) n := by
  have hfault := result_draw_tornColumn source hn f
  have hreports : ((Redrawing.resample source Resample.blankMap).draw (Source.tornColumn n f) 1).Reports _ 1 _ _ :=
    Redrawing.draw_reports _ Nat.one_ne_zero (by simp [hfault])
  obtain ⟨tiles, done, t, before, c, hplan, hhalted, -, hfractions⟩ := hreports.stopped _ hfault
  obtain ⟨hc, hfailed⟩ := hhalted.failed_at hplan
  have hcount : ((n + 1) ⌈/⌉ 1) * (1 ⌈/⌉ 1) = n + 1 := by simp
  have hdone : done.length = n := by
    rcases Source.pixel_eq_error_iff.mp hfailed with ⟨-, hrange⟩ | ⟨d, g, hd, hread, -⟩
    · cases hrange
    · have haddress := Redrawing.address?_blankMap source (Nat.le_add_left 1 _) (Nat.succ_le_succ hn) 1 hc
      obtain rfl : c = d := Option.some.inj (haddress.symm.trans hd)
      obtain ⟨rfl, -⟩ := Source.read_tornColumn.mp hread
      rw [hhalted.length_done hplan]
      simp [Tile.lattice, Tile.block, Canvas.offset, Span.count, TileSize.square, Source.tornColumn, Source.failing,
        Source.numbered]
  rw [hfractions, hdone]
  exact congrArg (reports · n) hcount

end TornColumn

/-! ### All work -/

variable [Pixel α] in
/-- Work with tiles that have no side says nothing about how far it has come. With tiles that have one, and as long as
    it stays in the range of words, it says that nothing is done and then, after each of the `n` tiles, which fraction
    of them is done; without any tile it says that all is done. If a read fails it has said so for each tile before the
    one of that read, which are fewer than all. The fractions rise, and come to one exactly if the work succeeds. As
    they are reported, rounded, this is still so up to `2 ^ 53` tiles. -/
theorem run_resample_seamless_report (src : Source α) (s : Nat) :
    (s = 0 →
      (∀ op : Operation, Event.fractions (op.run src ⟨s⟩).events = []) ∧
      (∀ source target : Projection, Event.fractions (resample src source target s).events = []) ∧
      ∀ fold? : Fold, Event.fractions (seamless fold? src s).events = []) ∧
    (s ≠ 0 →
      (∀ op : Operation, (op.run src ⟨s⟩).result ≠ .error .outOfRange →
        (op.run src ⟨s⟩).Reports src s ((src.canvas.height ⌈/⌉ s) * (src.canvas.width ⌈/⌉ s))
          (op.redrawing.route src.canvas)) ∧
      (∀ source target : Projection, (resample src source target s).result ≠ .error .outOfRange →
        (resample src source target s).Reports src s ((src.canvas.height ⌈/⌉ s) * (src.canvas.width ⌈/⌉ s))
          (Resample.route source target src.canvas)) ∧
      ∀ fold? : Fold, (seamless fold? src s).result ≠ .error .outOfRange →
        (seamless fold? src s).Reports src s ((src.canvas.height ⌈/⌉ s) * (src.canvas.width ⌈/⌉ s))
          (Seamless.route fold? src.canvas)) := by
  refine ⟨fun hs => ⟨fun op => ?_, fun source target => ?_, fun fold? => ?_⟩,
    fun hs => ⟨fun op h => ?_, fun source target h => ?_, fun fold? h => ?_⟩⟩
  · rw [op.fractions_run]
    exact op.redrawing.fractions_draw_of_zero hs
  · exact (Redrawing.resample source target).fractions_draw_of_zero hs
  · exact (Redrawing.seamless fold?).fractions_draw_of_zero hs
  · exact op.run_reports hs h
  · exact (Redrawing.resample source target).draw_reports hs h
  · exact (Redrawing.seamless fold?).draw_reports hs h

/-- A read that fails in the last of two tiles: one half is reported, and never one. -/
theorem run_resample_seamless_report_half :
    let src : Source UInt32 := (Source.numbered ⟨3, 2⟩).failing fun c =>
      if c = ⟨2, 0⟩ then some (.outOfBounds c) else none
    let work := seamless (fun _ => none) src 2
    work.result ≠ .error .outOfRange ∧ work.result = .error (.fault (.outOfBounds ⟨2, 0⟩)) ∧
      Event.fractions work.events = [0.0, 0.5] ∧ 1.0 ∉ Event.fractions work.events ∧
      (∃ done : List Tile, done.length < 2 ∧ Event.fractions work.events = reports 2 done.length) ∧
      Event.fractions (Operation.hammerTile.run src ⟨0⟩).events = [] := by
  intro src work
  have hfault : work.result = .error (.fault (.outOfBounds ⟨2, 0⟩)) := by decide +kernel
  have hrange : work.result ≠ .error .outOfRange := by simp [hfault]
  have hn : (2 ⌈/⌉ 2) * (3 ⌈/⌉ 2) = 2 := by decide
  have hreports : work.Reports src 2 ((2 ⌈/⌉ 2) * (3 ⌈/⌉ 2)) _ :=
    ((run_resample_seamless_report src 2).2 (by decide)).2.2 (fun _ => none) hrange
  rw [hn] at hreports
  obtain ⟨tiles, done, t, before, c, -, -, hlt, hfractions⟩ := hreports.stopped _ hfault
  refine ⟨hrange, hfault, by decide +kernel, ?_, ⟨done, hlt, hfractions⟩,
    ((run_resample_seamless_report src 0).1 rfl).1 .hammerTile⟩
  rw [hreports.one (by decide), hfault]
  rintro ⟨b, hb⟩
  cases hb

/-- A column of `2 ^ 53 + 1` cells, each of them a tile, of which the last cannot be read: all other tiles are done when
    the work fails, and their fraction is rounded to that of all tiles. -/
theorem resample_fault_reports_one :
    let torn : Fault := .unreadable "tile read failed at (0, 9007199254740992)"
    let work := resample (Source.tornColumn (2 ^ 53) torn) Equirectangular.projection Resample.blankMap 1
    ((2 ^ 53 + 1) ⌈/⌉ 1) * (1 ⌈/⌉ 1) = 2 ^ 53 + 1 ∧ work.result = .error (.fault torn) ∧
      Event.fractions work.events = reports (2 ^ 53 + 1) (2 ^ 53) ∧
      Float.ofNat (2 ^ 53 + 1) / .ofNat (2 ^ 53 + 1) = 1.0 ∧ 1.0 ∈ Event.fractions work.events := by
  intro torn
  have hfault := result_draw_tornColumn Equirectangular.projection (Nat.le_refl (2 ^ 53)) torn
  have hfractions := fractions_draw_tornColumn Equirectangular.projection (Nat.le_refl (2 ^ 53)) torn
  have hrounded : Float.ofNat (2 ^ 53) / .ofNat (2 ^ 53 + 1) = 1.0 := by decide +kernel
  have hmem := ratio_mem_reports (n := 2 ^ 53 + 1) (j := 2 ^ 53) (by decide) (Nat.le_refl (2 ^ 53))
  rw [hrounded] at hmem
  exact ⟨by simp, hfault, hfractions, by decide +kernel, hfractions ▸ hmem⟩

end GlobeTexture
