import EcatMaster.Utils.Config

/-! # `utils/config_utils.cpp`: reading the configuration file

`load_initial_value_from_config` flattens the tree of the file into the store: every tagged scalar is
set under the path of keys above it, joined with underscores. A list only passes the path on, without
the name it stands under. The tree and the conversion of a scalar's text are yaml-cpp's.
-/

namespace EcatMaster
set_option autoImplicit false

/-- A `YAML::Node`; the keys of a map are the scalars that `as<std::string>` gives. -/
inductive YamlNode where
  | null
  | scalar (tag text : String)
  | sequence (items : List YamlNode)
  | map (pairs : List (String × YamlNode))

/-- `as<T>` of a scalar with this text, for each type the parser asks for. -/
structure YamlAs where
  uint8 : String → Except Fault UInt8
  int8 : String → Except Fault Int8
  uint16 : String → Except Fault UInt16
  int16 : String → Except Fault Int16
  uint32 : String → Except Fault UInt32
  int32 : String → Except Fault Int32
  float : String → Except Fault F32
  string : String → Except Fault String

/-- The value of a scalar by its tag. -/
def YamlAs.value (yaml : YamlAs) (tag text : String) : Except Fault Variant :=
  if tag = "!uint8_t" then return .uint8 (← yaml.uint8 text)
  else if tag = "!int8_t" then return .int8 (← yaml.int8 text)
  else if tag = "!uint16_t" then return .uint16 (← yaml.uint16 text)
  else if tag = "!int16_t" then return .int16 (← yaml.int16 text)
  else if tag = "!uint32_t" then return .uint32 (← yaml.uint32 text)
  else if tag = "!int32_t" then return .int32 (← yaml.int32 text)
  else if tag = "!float" then return .float (← yaml.float text)
  else if tag = "!std::string" then return .string (← yaml.string text)
  else throw (.runtimeError ("Unsupported tag: " ++ tag))

/-- `root[key]`: the first pair with that key. -/
def YamlNode.index (key : String) : YamlNode → Except Fault (Option YamlNode)
  | .map pairs => return (pairs.find? fun kv => kv.1 = key).map Prod.snd
  | .scalar _ _ => throw (.runtimeError ("operator[] call on a scalar (key: \"" ++ key ++ "\")"))
  | _ => return none

namespace ConfigurationParser
variable (yaml : YamlAs)

/-- `{}_{}` -/
def joined (path key : String) : String := path ++ "_" ++ key

mutual

/-- The iteration over a node; that over a sequence gives elements, not pairs, and their `first` is no valid
node. -/
def parseMap (path : String) : YamlNode → ConfigurationParser → Except Fault ConfigurationParser
  | .map pairs, self => parsePairs path pairs self
  | .sequence (_ :: _), _ => throw (.runtimeError
      "invalid node; this may result from using a map iterator as a sequence iterator, or vice-versa")
  | .sequence [], self => return self
  | .scalar _ _, self => return self
  | .null, self => return self

/-- The loop over the pairs of the node. -/
def parsePairs (path : String) :
    List (String × YamlNode) → ConfigurationParser → Except Fault ConfigurationParser
  | [], self => return self
  | (key, val) :: pairs, self => do parsePairs path pairs (← parseValue path key val self)

def parseValue (path key : String) : YamlNode → ConfigurationParser → Except Fault ConfigurationParser
  | .scalar tag text, self => return self.set (joined path key) (← yaml.value tag text)
  | .sequence items, self => parseItems path items self
  | .map _, self => return self
  | .null, self => return self

/-- The loop over the elements of a list. -/
def parseItems (path : String) :
    List YamlNode → ConfigurationParser → Except Fault ConfigurationParser
  | [], self => return self
  | item :: items, self => do parseItems path items (← parseItem path item self)

def parseItem (path : String) : YamlNode → ConfigurationParser → Except Fault ConfigurationParser
  | .map pairs, self => parseEach path pairs self
  | .sequence _, self => return self
  | .scalar _ _, self => return self
  | .null, self => return self

/-- The loop over the pairs of an element. -/
def parseEach (path : String) :
    List (String × YamlNode) → ConfigurationParser → Except Fault ConfigurationParser
  | [], self => return self
  | (key, node) :: pairs, self => do parseEach path pairs (← parseMap (joined path key) node self)

end

def parseSlave : YamlNode → ConfigurationParser → Except Fault ConfigurationParser
  | .map pairs, self => pairs.foldlM (fun self kv => parseMap yaml kv.1 kv.2 self) self
  | _, self => return self

/-- `load_initial_value_from_config` on the tree of the file. -/
def loadInitialValueFromConfig (root : YamlNode) (self : ConfigurationParser) :
    Except Fault ConfigurationParser := do
  match ← root.index "slaves" with
  | some (.sequence slaves) => slaves.foldlM (fun self slave => parseSlave yaml slave self) self
  | _ => return self

end ConfigurationParser
end EcatMaster
