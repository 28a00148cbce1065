import EscapeRoom.Workload.Levels
import EscapeRoom.Workload.Tasks
import EscapeRoom.Workload.Tilesets

/-! # The workloads by name -/

namespace EscapeRoom.Workload

def families : Table String WorkloadFamily :=
  [("tset_parse", ⟨"n_tiles", 200, tilesetReading⟩),
    ("tset_parse_errors", ⟨"n_tiles", 60, tilesetFaults⟩),
    ("tilesetc_compile", ⟨"n_tiles", 200, tilesetCompiling⟩),
    ("tilesetc_main", ⟨"n_tiles", 120, tilesetCommand⟩),
    ("levelc_parse", ⟨"n_rooms", 12, levelReading⟩),
    ("levelc_errors", ⟨"n_rooms", 4, levelFaults⟩),
    ("levelc_compile", ⟨"n_rooms", 12, levelCompiling⟩),
    ("levelc_main", ⟨"n_rooms", 6, levelCommand⟩),
    ("task_scripts", ⟨"n_levels", 8, projectTasks⟩)]

end EscapeRoom.Workload
