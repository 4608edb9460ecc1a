import DraftKeeper.Service.Connection

namespace DraftKeeper

def Place.ofName? (path : String) : Option Place := 
  (Path.normalize path).toOption.map Path.slashComponents

namespace Keeper

def reach (k : Keeper) (path : String) : List Place :=
  match Path.normalize path with
  | .error _ => []
  | .ok p =>
    let project := (Path.project? p).getD "/"
    let folder := Path.join project k.options.folder
    match Path.normalize folder with
    | .error _ => [p, project].filterMap Place.ofName?
    | .ok folder => [p, project, folder, Path.join folder (Path.flatten p)].filterMap Place.ofName?

def trackedReach (k : Keeper) : List Place := k.tracked.flatMap k.reach

end Keeper

def Method.paths (params : Json) : Method → List String
  | .ping | .shutdown => []
  | .trackFile => ((Tracking.ofJson params).toOption.map Tracking.paths).getD []
  | .trackChanges => ((Edit.ofJson params).toOption.map Edit.location).toList
  | .content | .persistentPath | .recoverable =>
    ((PathQuery.ofJson params).toOption.map PathQuery.path).toList

def Request.paths (line : Bytes) : List String :=
  match Framing.request? line with
  | none => []
  | some text =>
    match Request.ofText text with
    | .error _ => []
    | .ok r =>
      match Method.ofName? r.method, r.params with
      | some m, some params => m.paths params.sorted
      | _, _ => []

/-- The places that taking in bytes may concern, the end of the input too. -/
def Serving.reach (s : Serving) (bs : Bytes) : List Place :=
  let (lines, reader) := s.connection.reader.feed bs
  ((reader.begun :: lines).flatMap Request.paths).flatMap s.worker.keeper.reach

end DraftKeeper
