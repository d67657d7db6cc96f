import FastClone.Spec.ClientStep

/-!
# The slots of the lanes (`link_scheduler.h`)

`inFlight` of a lane counts the streams that are open on it: the four dispatch loops raise it, the frame handlers
lower it (`releaseSlot`). `SelectLeastLoadedLane` reads it to hold every lane below a cap.
-/

namespace FastClone.Client

/-! ### The choice of a lane -/

/-- `LaneLoad`; the weights are floating-point numbers, of which only the comparison of loads is used. -/
structure LaneLoad (W : Type) where
  healthy : Bool := false
  inFlight : ℕ := 0
  weight : W
  bias : ℕ := 0

section Select

variable {W : Type} (less : LaneLoad W → LaneLoad W → Bool)

/-- One turn of the loop of `SelectLeastLoadedLane`: `less c b` is `load < bestLoad - kEps`. -/
def considerLane (streamLimit : ℕ) (best : Option (LaneLoad W × ℕ)) (c : LaneLoad W × ℕ) :
    Option (LaneLoad W × ℕ) :=
  if !c.1.healthy || decide (c.1.inFlight ≥ streamLimit) then best
  else
    match best with
    | none => some c
    | some b => if less c.1 b.1 then some c else best

/-- `SelectLeastLoadedLane`. -/
def selectLeastLoadedLane (lanes : List (LaneLoad W)) (streamLimit : ℕ) (forcePrimary : Bool) : Option ℕ :=
  match lanes with
  | [] => none
  | primary :: _ =>
    if forcePrimary && primary.healthy then
      if primary.inFlight < streamLimit then some 0 else none
    else (lanes.zipIdx.foldl (considerLane less streamLimit) none).map Prod.snd

end Select

variable {P H : Type} [DecidableEq P]

namespace State

/-- `reservedSlots`. -/
def reservedSlots (cfg : Config) (s : State P H) : ℕ :=
  if s.blockModeActive cfg then computeFileRangeReservedSlots s.activeStreamLimit else 0

/-- `laneBias`. -/
def laneBias (s : State P H) (wanControlReserve isPrimary : Bool) : ℕ :=
  let laneBias := if !s.manifestDone && isPrimary then 1 else 0
  if wanControlReserve && isPrimary then max laneBias s.activeStreamLimit else laneBias

/-- `lanes` of `pickConnection`; lane 0 is the primary. -/
def laneLoads {W : Type} (one auxWeight : W) (wanControlReserve : Bool) (s : State P H) : List (LaneLoad W) :=
  s.pool.mapIdx fun i l =>
    { healthy := l.healthy
      inFlight := l.inFlight
      weight := if i = 0 then one else auxWeight
      bias := s.laneBias wanControlReserve (i == 0) }

/-- `pickConnection`. -/
def pickConnection {W : Type} (less : LaneLoad W → LaneLoad W → Bool) (one auxWeight : W) (wanControlReserve : Bool)
    (cfg : Config) (s : State P H) (forcePrimary reserveFileRange : Bool) : Option ℕ :=
  selectLeastLoadedLane less (s.laneLoads one auxWeight wanControlReserve) (s.laneCap cfg reserveFileRange) forcePrimary

end State

/-! ### The accounts -/

/-- The streams that are keyed to a lane. -/
def Streams.onLane (s : Streams P) (lane : ℕ) : ℕ := s.table.keys.countP fun k => k.1 == lane

/-- Every healthy lane counts the streams that are open on it. -/
def Accounted (s : State P H) : Prop :=
  ∀ lane, s.pool.healthy lane = true → s.pool.inFlight lane = s.streams.onLane lane

/-- The lane may take the stream: a block may use all of the limit, any other stream what is not reserved. -/
def Admits (cfg : Config) (s : State P H) (lane : ℕ) (st : Stream P) : Prop :=
  s.pool.healthy lane = true ∧
    s.pool.inFlight lane <
      if st.isFileRange then s.activeStreamLimit else s.activeStreamLimit - s.reservedSlots cfg

/-- The streams a step opens are on lanes that could take them. -/
def Admitted (cfg : Config) (s s' : State P H) : Prop :=
  ∀ k st, s'.streams.find k = some st → s.streams.find k = none → Admits cfg s k.1 st

/-- A lane without streams can be picked for a stream that uses no reserved slot. -/
def NotStarved (cfg : Config) (s : State P H) : Prop :=
  ∀ (W : Type) (less : LaneLoad W → LaneLoad W → Bool) (one auxWeight : W) (wanControlReserve forcePrimary : Bool) (lane : ℕ),
    s.pool.healthy lane = true → s.pool.inFlight lane = 0 → (forcePrimary = true → lane = 0) →
      ∃ picked, s.pickConnection less one auxWeight wanControlReserve cfg forcePrimary true = some picked

/-- A `FileError` of a healthy lane is about a single or batch stream that is open, or the lane has no slot to lose. -/
def KnownError (s : State P H) : Event P H → Prop
  | .fileError k =>
    s.pool.healthy k.1 = true → 0 < s.pool.inFlight k.1 →
      (s.streams.find k).any fun st => st.isDownload || st.isBatch
  | _ => True

instance (s : State P H) (e : Event P H) : Decidable (KnownError s e) := by
  apply Event.casesOn (motive := fun e => Decidable (KnownError s e)) e <;> intros <;>
    dsimp only [KnownError] <;> infer_instance

end FastClone.Client
