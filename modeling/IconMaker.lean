import IconMaker.Main
import IconMaker.Proofs.Conversion.Output
import IconMaker.Proofs.Conversion.Together
import IconMaker.Proofs.Png.Encodings
import IconMaker.Proofs.CommandLine.Steps
import IconMaker.Proofs.CommandLine.Grammar
import IconMaker.Proofs.Run
import IconMaker.Proofs.Toml.Layout
import IconMaker.Proofs.Toml.Strings
import IconMaker.Proofs.Toml.Numbers
import IconMaker.Proofs.Toml.Insertion
import IconMaker.Proofs.Toml.Moments
import IconMaker.Proofs.Toml.Keys
import IconMaker.Proofs.Toml.Values
import IconMaker.Proofs.Toml.Document
import IconMaker.Proofs.Settings.Schema
import IconMaker.Proofs.Settings.Written
import IconMaker.Proofs.Conversion.Causes
import IconMaker.Proofs.Conversion.Again
import IconMaker.Proofs.Settings.Values
import IconMaker.Proofs.Settings.Layers
import IconMaker.Proofs.Settings.Sizes
import IconMaker.Proofs.Conversion.Repeat
import IconMaker.Proofs.Conversion.Permissions
import IconMaker.Proofs.Conversion.Colors
import IconMaker.Proofs.Png.Corruption
import IconMaker.Proofs.SizeList.Text
import IconMaker.Proofs.Text.Quoted
import IconMaker.Proofs.Messages
import IconMaker.Proofs.CommandLine.Finality
import IconMaker.Proofs.Confirmation
