import ValueClass.Command.Run

/-! # The footprint of a command

The places that a command can look at. A tree of files that agrees with the
disk at these places gives the command the same answers as the disk.
-/

namespace ValueClass

namespace Command

/-- The paths that a command is given by name. -/
def namedPaths : Command → List Path
  | .generate file _ _ options => (texts [file, options.config]).map .ofText
  | .fromJson file _ _ _ outputDir _ options =>
    (texts [file, options.config, outputDir]).map .ofText
  | .config file _ output => (texts [file, output]).map .ofText
  | .nothing => []
where
  /-- The names that are given at all. -/
  texts (names : List Text) : List Text :=
    names.filter fun name => !name.isEmpty

/-- The directory that a command makes new files in. -/
def targetDirectory? (tree : FileTree) : Command → Option Path
  | .fromJson file _ _ _ outputDir _ _ => some (outputDirectory tree outputDir file)
  | _ => none

end Command

namespace FileTree

/-- The places on the way from a place along some components. -/
def wayFrom (place : List Text) : List Text → List (List Text)
  | [] => [place]
  | part :: rest => place :: wayFrom (Package.stepInto place part) rest

/-- The places above a place and the place itself, from the top down. -/
def placesDownTo (place : List Text) : List (List Text) :=
  (List.range place.length).map fun n => place.take (n + 1)

/-- The places on the way along a path, and those above them. -/
def placesAlong (cwd : List Text) (p : Path) : List (List Text) :=
  (wayFrom (if p.isAbsolute then [] else cwd) p.parts).flatMap placesDownTo

/-- Where the description of a package can stand for the given places. -/
def descriptionsFor (places : List (List Text)) : List (List Text) :=
  [Package.descriptionFile] :: places.map fun place => place ++ [Package.descriptionFile]

/-- All places that matter for some paths. -/
def footprint (cwd : List Text) (paths : List Path) : List (List Text) :=
  let places := ((({} : Path) :: paths).flatMap (placesAlong cwd)).eraseDups
  places ++ descriptionsFor places

/-- What stands in a tree at places where another tree has something else. -/
def changesFrom (old new : FileTree) : List (List Text × Node) :=
  new.nodes.filter fun (place, node) => old.node? place != some node

end FileTree

end ValueClass
