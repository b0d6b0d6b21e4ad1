import LogSetup.Factories.Canned
import LogSetup.Factories.Lines
import LogSetup.World.Shown
import LogSetup.World.Threads
import LogSetup.Proofs.Events.Runs
import LogSetup.Proofs.Loader.Openings
import LogSetup.Proofs.Resolving.Answers
import LogSetup.Proofs.Resolving.Places
import LogSetup.Proofs.Resolving.Ranking
import LogSetup.Proofs.Resolving.Probing
import LogSetup.Proofs.Text.Pieces
import LogSetup.Proofs.Resolving.Composite
import LogSetup.Proofs.Resolving.Override
import LogSetup.Proofs.Resolving.Discovery
import LogSetup.Proofs.Resolving.Inactive
import LogSetup.Proofs.World.Choice
import LogSetup.Proofs.World.Restoring
import LogSetup.Proofs.World.Inactive
import LogSetup.Proofs.Threads.Runs
import LogSetup.Proofs.Threads.OneTime
import LogSetup.Proofs.Startup.Guards
import LogSetup.Proofs.Catalog.System
import LogSetup.Proofs.Catalog.Builds
import LogSetup.Proofs.Catalog.Frozen
import LogSetup.Proofs.Catalog.Alone
import LogSetup.Proofs.Catalog.Generations
import LogSetup.Proofs.Catalog.Writes
import LogSetup.Proofs.Providers.System
import LogSetup.Proofs.Providers.Replacing
import LogSetup.Proofs.Providers.Exclusion
import LogSetup.Proofs.Providers.Admission
import LogSetup.Proofs.Providers.Growth
import LogSetup.Proofs.Providers.Interruption
import LogSetup.Proofs.Events.Reports
import LogSetup.Proofs.Resolving.Reports
import LogSetup.Proofs.World.Reports
import LogSetup.Proofs.World.Independence
import LogSetup.Proofs.Providers.Snapshots
import LogSetup.Proofs.Loader.Scopes
import LogSetup.Proofs.World.Scopes
import LogSetup.Proofs.Loader.Searches
import LogSetup.Proofs.Resolving.Consulting
import LogSetup.Proofs.Plugins.Table
import LogSetup.Proofs.Catalog.Contents
import LogSetup.Proofs.Settings.Chains
import LogSetup.Proofs.Settings.Names
import LogSetup.Proofs.Settings.Spelling
import LogSetup.Proofs.Providers.Candidates
import LogSetup.Proofs.Text.Numerals
import LogSetup.Proofs.Binary64.Canonical
import LogSetup.Proofs.Binary64.Shortest
import LogSetup.Proofs.Binary64.Text
import LogSetup.Proofs.Providers.Priorities
import LogSetup.Proofs.Providers.Validation
import LogSetup.Proofs.Yaml.Plain
import LogSetup.Proofs.Providers.Quoting
import LogSetup.Proofs.Plugins.Histories
import LogSetup.Proofs.Loader.Listings
import LogSetup.Proofs.Loader.Folders
import LogSetup.Proofs.Source.Locations
import LogSetup.Proofs.Loader.Removal
import LogSetup.Proofs.Loader.Origins
import LogSetup.Proofs.Resolving.Urls
