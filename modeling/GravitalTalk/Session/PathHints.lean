import GravitalTalk.Lib.Recency
import GravitalTalk.Lib.Run
import GravitalTalk.Session.State

/-!
# Which path hints stay

`add_path_hints` says that the most recent addresses are kept. It keeps them by
their first mention: an address that is announced again stays where it was, and
leaves with the oldest.
-/
namespace GravitalTalk
namespace Path

open Recency

/-- A path, and all addresses mentioned to it so far in their order. -/
abbrev Hinted := Path × List SocketAddr

def hint (s : Hinted) (addrs : List SocketAddr) : Hinted := (s.1.addHints addrs, s.2 ++ addrs)

/-- The hints are distinct, and they are the addresses mentioned most recently. -/
structure KeepsFreshest (s : Hinted) : Prop where
  nodup : s.1.pathHints.Nodup
  fresh : ∀ a, a ∈ s.1.pathHints ↔ a ∈ freshest maxPathHints s.2

theorem addHints_pathHints (p : Path) (addrs : List SocketAddr) :
    (p.addHints addrs).pathHints = keepLast maxPathHints (queue p.pathHints addrs) := by
  rw [queue_eq_foldl]
  rfl

/-- The hints are distinct whatever is mentioned. -/
theorem nodup_addHints {p : Path} (h : p.pathHints.Nodup) (addrs : List SocketAddr) :
    (p.addHints addrs).pathHints.Nodup := by
  rw [addHints_pathHints]
  exact (nodup_queue h addrs).sublist (List.drop_sublist _ _)

theorem length_addHints_le (p : Path) (addrs : List SocketAddr) :
    (p.addHints addrs).pathHints.length ≤ maxPathHints := by
  rw [addHints_pathHints, length_keepLast]
  exact min_le_left _ _

theorem keepsFreshest_new : KeepsFreshest (new, []) :=
  ⟨List.nodup_nil, fun _ => Iff.rfl⟩

theorem keepsFreshest_hint_iff {s : Hinted} (h : KeepsFreshest s) (addrs : List SocketAddr) :
    KeepsFreshest (hint s addrs) ↔ Orderly maxPathHints s.2 s.1.pathHints addrs := by
  rw [← keepLast_eq_freshest_iff h.nodup h.fresh, ← addHints_pathHints]
  exact ⟨fun h' => h'.fresh, fun hfresh => ⟨nodup_addHints h.nodup addrs, hfresh⟩⟩

/-- After every call the hints are the freshest addresses exactly when, at every call, the
addresses that leave were last mentioned before those that stay. -/
theorem hints_stay_fresh (calls : List (List SocketAddr)) :
    (∀ done, done <+: calls → KeepsFreshest (done.foldl hint (new, []))) ↔
      Run.Along hint (fun s addrs => Orderly maxPathHints s.2 s.1.pathHints addrs)
        (new, []) calls :=
  Run.stays_iff_along keepsFreshest_new fun _ addrs h => keepsFreshest_hint_iff h addrs

/-- An address of the local network with the given port. -/
def lanAddr (port : UInt16) : SocketAddr := .v4 #v[192, 168, 1, 20] port

/-- Twelve addresses, the first one announced again, and one more: the announcement is lost. -/
theorem live_hint_dropped :
    ¬ KeepsFreshest ([(List.range 12).map fun i => lanAddr (UInt16.ofNat i), [lanAddr 0],
      [lanAddr 12]].foldl hint (new, [])) := by
  intro h
  have hfresh := (h.fresh (lanAddr 0)).mpr (by decide)
  exact absurd hfresh (by decide)

end Path
end GravitalTalk
